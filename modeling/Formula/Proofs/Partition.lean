import Mathlib.Data.List.Sort
import Formula.Proofs.Spelling

/-!
# The tokens partition the text

`Partition cs ts` says without a reader what the tokens of a text are.  They stand one after the
other, each says the characters at its span, brackets stand alone and words are of plain characters,
no two words touch, and what is outside is white space.

What a scan has read so far, less an unfinished word, is such a partition of what stands before the
word (`Scan.Parts`), and every character keeps it so (`Scan.Parts.step`).  There is no other
partition.  Tokens of two partitions that share a character are the same (`eq_of_covers`): a word
that began before the other or ended after it would have a plain character beside that one, and the
word of this character would touch it.
-/

namespace Formula

open Text (Span isBlank isPlain isWord)

/-- The characters at a span. -/
def Text.Span.chars (s : Span) (cs : List Char) : List Char := cs.extract s.start s.stop

/-- Whether a character stands at a span. -/
def Text.Span.Covers (s : Span) (i : Nat) : Prop := s.start ≤ i ∧ i < s.stop

/-- A bracket, or a word of plain characters. -/
def Lexeme.Proper : Lexeme → Prop
  | word w => Text.isWord w
  | _ => True

/-- The tokens are those of the text. -/
structure Partition (cs : List Char) (ts : List Token) : Prop where
  /-- They stand one after the other. -/
  apart : ts.Pairwise fun t u => t.span.stop ≤ u.span.start
  inside : ∀ t ∈ ts, t.span.start < t.span.stop ∧ t.span.stop ≤ cs.length
  said : ∀ t ∈ ts, t.span.chars cs = t.lexeme.text.toList
  proper : ∀ t ∈ ts, t.lexeme.Proper
  /-- No word is a part of a longer one. -/
  maximal : ∀ t ∈ ts, ∀ u ∈ ts, t.lexeme.isWord → u.lexeme.isWord → t.span.stop ≠ u.span.start
  /-- White space, and nothing else, is in no token. -/
  between : ∀ i c, cs[i]? = some c → (isBlank c ↔ ∀ t ∈ ts, ¬ t.span.Covers i)

/-! ### Characters of a token -/

theorem Text.not_isBlank_of_isPlain {c : Char} (h : isPlain c) : ¬ isBlank c := by
  simp only [isPlain, Bool.and_eq_true, Bool.not_eq_true'] at h
  rw [h.2]
  exact Bool.false_ne_true

namespace Text.Span

variable {s : Span} {cs ds : List Char} {i : Nat} {c : Char}

theorem length_chars (h : s.stop ≤ cs.length) : (s.chars cs).length = s.stop - s.start := by
  rw [chars, List.length_take, List.length_drop]
  omega

theorem mem_chars (covers : s.Covers i) (h : cs[i]? = some c) : c ∈ s.chars cs := by
  obtain ⟨first, last⟩ := covers
  refine List.mem_iff_getElem?.2 ⟨i - s.start, ?_⟩
  rw [chars, List.getElem?_take_of_lt (by omega), List.getElem?_drop, Nat.add_sub_cancel' first, h]

theorem chars_append (h : s.stop ≤ cs.length) : s.chars (cs ++ ds) = s.chars cs := by
  by_cases empty : s.start ≤ cs.length
  · rw [chars, chars, List.extract_eq_take_drop, List.drop_append_of_le_length empty,
      List.take_append_of_le_length (by rw [List.length_drop]; omega)]
  · simp [chars, show s.stop - s.start = 0 by omega]

theorem chars_last (cs ds : List Char) :
    chars ⟨cs.length, cs.length + ds.length⟩ (cs ++ ds) = ds := by
  rw [chars, List.extract_eq_take_drop, List.drop_left, Nat.add_sub_cancel_left, List.take_length]

end Text.Span

namespace Lexeme

variable {t u : Lexeme} {c : Char}

/-- The characters of a word are plain, those of a bracket are not, and none is white space. -/
theorem Proper.chars (h : t.Proper) (hc : c ∈ t.text.toList) :
    ¬ isBlank c ∧ (isPlain c ↔ t.isWord) := by
  cases t with
  | opening =>
    obtain rfl := List.mem_singleton.1 hc
    decide
  | closing =>
    obtain rfl := List.mem_singleton.1 hc
    decide
  | word w =>
    have plain := (Text.isWord_iff.1 h).2 c hc
    exact ⟨Text.not_isBlank_of_isPlain plain, iff_of_true plain rfl⟩

theorem Proper.length_text_pos (h : t.Proper) : 0 < t.text.toList.length := by
  cases t with
  | opening => exact Nat.one_pos
  | closing => exact Nat.one_pos
  | word w => exact List.length_pos_iff.2 (mt String.toList_eq_nil_iff.1 (Text.isWord_iff.1 h).1)

theorem length_text_of_not_isWord (h : ¬ t.isWord) : t.text.toList.length = 1 := by
  cases t with
  | opening => rfl
  | closing => rfl
  | word w => exact absurd rfl h

/-- The token with a text. -/
def ofText (text : String) : Lexeme :=
  if text = "(" then opening else if text = ")" then closing else word text

theorem Proper.ofText_text (h : t.Proper) : ofText t.text = t := by
  cases t with
  | opening => rfl
  | closing => rfl
  | word w =>
    have noBracket : w ≠ "(" ∧ w ≠ ")" := by
      constructor <;> rintro rfl <;> cases h
    exact (if_neg noBracket.1).trans (if_neg noBracket.2)

end Lexeme

namespace Partition

variable {cs : List Char} {ts us : List Token} {t u : Token} {i : Nat} {c : Char}

/-! ### Longer texts -/

theorem nil : Partition [] [] where
  apart := .nil
  inside := List.forall_mem_nil _
  said := List.forall_mem_nil _
  proper := List.forall_mem_nil _
  maximal := List.forall_mem_nil _
  between i c h := by cases h

theorem blank (h : Partition cs ts) (hc : isBlank c) : Partition (cs ++ [c]) ts where
  apart := h.apart
  inside t ht := ⟨(h.inside t ht).1, by
    rw [List.length_append]
    exact Nat.le_add_right_of_le (h.inside t ht).2⟩
  said t ht := by rw [Span.chars_append (h.inside t ht).2, h.said t ht]
  proper := h.proper
  maximal := h.maximal
  between i d hd := by
    rcases Nat.lt_or_ge i cs.length with before | after
    · rw [List.getElem?_append_left before] at hd
      exact h.between i d hd
    · obtain rfl : c = d := by
        rw [List.getElem?_append_right after] at hd
        exact (List.mem_singleton.1 (List.mem_of_getElem? hd)).symm
      refine iff_of_true hc fun t ht covers => ?_
      have := (h.inside t ht).2
      have := covers.2
      omega

/-- A token may follow that is no word, or not right after one. -/
theorem append (h : Partition cs ts) {l : Lexeme} (proper : l.Proper)
    (free : l.isWord → ∀ u ∈ ts, u.lexeme.isWord → u.span.stop ≠ cs.length) :
    Partition (cs ++ l.text.toList)
      (ts ++ [⟨l, ⟨cs.length, cs.length + l.text.toList.length⟩⟩]) where
  apart := by
    refine List.pairwise_append.2 ⟨h.apart, List.pairwise_singleton _ _, fun t ht u hu => ?_⟩
    rw [List.mem_singleton.1 hu]
    exact (h.inside t ht).2
  inside := by
    rw [List.length_append]
    refine List.forall_mem_append.2 ⟨fun t ht => ?_, List.forall_mem_singleton.2 ?_⟩
    · exact ⟨(h.inside t ht).1, Nat.le_add_right_of_le (h.inside t ht).2⟩
    · exact ⟨Nat.lt_add_of_pos_right proper.length_text_pos, Nat.le_refl _⟩
  said := by
    refine List.forall_mem_append.2 ⟨fun t ht => ?_, List.forall_mem_singleton.2 ?_⟩
    · rw [Span.chars_append (h.inside t ht).2, h.said t ht]
    · exact Span.chars_last cs l.text.toList
  proper := List.forall_mem_append.2 ⟨h.proper, List.forall_mem_singleton.2 proper⟩
  maximal := by
    have later (n : Nat) (u : Token) (hu : u ∈ ts) : cs.length + n ≠ u.span.start := by
      have := h.inside u hu
      omega
    refine List.forall_mem_append.2 ⟨fun t ht => List.forall_mem_append.2
      ⟨h.maximal t ht, List.forall_mem_singleton.2 fun first last => free last t ht first⟩, ?_⟩
    refine List.forall_mem_singleton.2 (List.forall_mem_append.2
      ⟨fun u hu _ _ => later _ u hu, List.forall_mem_singleton.2 fun _ _ => ?_⟩)
    exact Nat.ne_of_gt (Nat.lt_add_of_pos_right proper.length_text_pos)
  between i d hd := by
    rw [List.forall_mem_append, List.forall_mem_singleton]
    rcases Nat.lt_or_ge i cs.length with before | after
    · rw [List.getElem?_append_left before] at hd
      rw [h.between i d hd]
      exact (and_iff_left fun covers => absurd covers.1 (Nat.not_le.2 before)).symm
    · rw [List.getElem?_append_right after] at hd
      obtain ⟨inside, -⟩ := List.getElem?_eq_some_iff.1 hd
      refine iff_of_false ((proper.chars (List.mem_of_getElem? hd)).1) fun none => ?_
      exact none.2 ⟨after, by dsimp only; omega⟩

/-! ### There is no other -/

theorem exists_char (h : Partition cs ts) (ht : t ∈ ts) (covers : t.span.Covers i) :
    ∃ c, cs[i]? = some c := by
  have within : i < cs.length := Nat.lt_of_lt_of_le covers.2 (h.inside t ht).2
  exact ⟨cs[i], List.getElem?_eq_getElem within⟩

theorem isPlain_iff (h : Partition cs ts) (ht : t ∈ ts) (covers : t.span.Covers i)
    (hc : cs[i]? = some c) : isPlain c ↔ t.lexeme.isWord :=
  ((h.proper t ht).chars (h.said t ht ▸ Span.mem_chars covers hc)).2

theorem exists_token (h : Partition cs ts) (hc : cs[i]? = some c) (dark : ¬ isBlank c) :
    ∃ t ∈ ts, t.span.Covers i := by
  by_contra none
  exact dark ((h.between i c hc).2 fun t ht covers => none ⟨t, ht, covers⟩)

theorem eq_or_apart (h : Partition cs ts) (ht : t ∈ ts) (hu : u ∈ ts) :
    t = u ∨ t.span.stop ≤ u.span.start ∨ u.span.stop ≤ t.span.start := by
  have : Std.Symm fun t u : Token => t.span.stop ≤ u.span.start ∨ u.span.stop ≤ t.span.start :=
    ⟨fun _ _ => Or.symm⟩
  have apart : ts.Pairwise fun t u => t.span.stop ≤ u.span.start ∨ u.span.stop ≤ t.span.start :=
    h.apart.imp Or.inl
  by_cases same : t = u
  · exact .inl same
  · exact .inr (apart.forall ht hu same)

/-- A character beside a word is not plain. -/
theorem not_isPlain_beside (h : Partition cs ts) (ht : t ∈ ts) (word : t.lexeme.isWord)
    (beside : i + 1 = t.span.start ∨ i = t.span.stop) (hc : cs[i]? = some c) : ¬ isPlain c := by
  intro plain
  obtain ⟨u, hu, covers⟩ := h.exists_token hc (Text.not_isBlank_of_isPlain plain)
  have word' := (h.isPlain_iff hu covers hc).1 plain
  have long := (h.inside t ht).1
  obtain ⟨first, last⟩ := covers
  rcases h.eq_or_apart ht hu with rfl | before | after
  · omega
  · exact h.maximal t ht u hu word word' (by omega)
  · exact h.maximal u hu t ht word' word (by omega)

/-- A word reaches as far as a word of another partition with which it shares a character. -/
theorem word_within (h : Partition cs ts) (h' : Partition cs us) (ht : t ∈ ts) (hu : u ∈ us)
    (word : t.lexeme.isWord) (word' : u.lexeme.isWord) (covers : t.span.Covers i)
    (covers' : u.span.Covers i) : t.span.start ≤ u.span.start ∧ u.span.stop ≤ t.span.stop := by
  obtain ⟨first, last⟩ := covers
  obtain ⟨first', last'⟩ := covers'
  have inside (j : Nat) (covers : u.span.Covers j) :
      ¬ (j + 1 = t.span.start ∨ j = t.span.stop) := by
    intro beside
    obtain ⟨c, hc⟩ := h'.exists_char hu covers
    exact h.not_isPlain_beside ht word beside hc ((h'.isPlain_iff hu covers hc).2 word')
  constructor
  · by_contra earlier
    exact inside (t.span.start - 1) ⟨by omega, by omega⟩ (.inl (by omega))
  · by_contra later
    exact inside t.span.stop ⟨by omega, by omega⟩ (.inr rfl)

theorem span_of_bracket (h : Partition cs ts) (ht : t ∈ ts) (bracket : ¬ t.lexeme.isWord)
    (covers : t.span.Covers i) : t.span.start = i ∧ t.span.stop = i + 1 := by
  have length := Span.length_chars (h.inside t ht).2
  rw [h.said t ht, Lexeme.length_text_of_not_isWord bracket] at length
  obtain ⟨first, last⟩ := covers
  omega

/-- Tokens of two partitions that share a character are the same. -/
theorem eq_of_covers (h : Partition cs ts) (h' : Partition cs us) (ht : t ∈ ts) (hu : u ∈ us)
    (covers : t.span.Covers i) (covers' : u.span.Covers i) : t = u := by
  obtain ⟨c, hc⟩ := h.exists_char ht covers
  have kind : t.lexeme.isWord ↔ u.lexeme.isWord :=
    (h.isPlain_iff ht covers hc).symm.trans (h'.isPlain_iff hu covers' hc)
  have ends : t.span.start = u.span.start ∧ t.span.stop = u.span.stop := by
    by_cases word : t.lexeme.isWord
    · have within := h.word_within h' ht hu word (kind.1 word) covers covers'
      have within' := h'.word_within h hu ht (kind.1 word) word covers' covers
      omega
    · have single := h.span_of_bracket ht word covers
      have single' := h'.span_of_bracket hu (mt kind.2 word) covers'
      omega
  have span : t.span = u.span := congrArg₂ Span.mk ends.1 ends.2
  have text : t.lexeme.text = u.lexeme.text := by
    rw [← String.toList_inj, ← h.said t ht, ← h'.said u hu, span]
  have lexeme : t.lexeme = u.lexeme := by
    rw [← (h.proper t ht).ofText_text, text, (h'.proper u hu).ofText_text]
  exact congrArg₂ Token.mk lexeme span

theorem subset (h : Partition cs ts) (h' : Partition cs us) : ts ⊆ us := by
  intro t ht
  have covers : t.span.Covers t.span.start := ⟨Nat.le_refl _, (h.inside t ht).1⟩
  obtain ⟨c, hc⟩ := h.exists_char ht covers
  have dark : ¬ isBlank c := fun blank => (h.between _ c hc).1 blank t ht covers
  obtain ⟨u, hu, covers'⟩ := h'.exists_token hc dark
  rw [h.eq_of_covers h' ht hu covers covers']
  exact hu

theorem increasing (h : Partition cs ts) :
    ts.Pairwise fun t u => t.span.start < u.span.start :=
  h.apart.imp_of_mem fun ht _ before => Nat.lt_of_lt_of_le (h.inside _ ht).1 before

theorem unique (h : Partition cs ts) (h' : Partition cs us) : ts = us := by
  have : Std.Antisymm fun t u : Token => t.span.start < u.span.start :=
    ⟨fun _ _ before after => absurd after (Nat.lt_asymm before)⟩
  have : Std.Irrefl fun t u : Token => t.span.start < u.span.start := ⟨fun _ => Nat.lt_irrefl _⟩
  exact List.Subset.antisymm_of_pairwise h.increasing h'.increasing (h.subset h') (h'.subset h)

end Partition

/-! ### The tokens that are read -/

namespace Scan

/-- What has been read of the characters: a partition, and after it the word that is not ended. -/
structure Parts (cs : List Char) (s : Scan) : Prop where
  place : s.place = cs.length
  plain : ∀ c ∈ s.word, isPlain c
  split : ∃ done, cs = done ++ s.word.reverse ∧ Partition done s.tokens.reverse ∧
    ∀ t ∈ s.tokens, t.lexeme.isWord → t.span.stop ≠ done.length

variable {cs : List Char} {s : Scan}

theorem Parts.empty : Parts [] {} where
  place := rfl
  plain := List.forall_mem_nil _
  split := ⟨[], rfl, .nil, List.forall_mem_nil _⟩

/-- When the word ends there is a partition of all that was read. -/
theorem Parts.partition (h : Parts cs s) : Partition cs s.endWord.tokens.reverse := by
  obtain ⟨done, split, parts, free⟩ := h.split
  unfold endWord
  split
  · next nothing => simpa [split, nothing] using parts
  · next something =>
    have place := h.place
    rw [split, List.length_append, List.length_reverse] at place
    have word : Lexeme.Proper (.word (.ofList s.word.reverse)) :=
      Text.isWord_iff.2 ⟨by simpa using something, by simpa using h.plain⟩
    have longer := parts.append word fun _ u hu => free u (List.mem_reverse.1 hu)
    rw [Lexeme.text, String.toList_ofList, ← split, List.length_reverse] at longer
    rw [List.reverse_cons, place, Nat.add_sub_cancel_right]
    exact longer

/-- What a scan has read so far is in parts after every character. -/
theorem Parts.step (h : Parts cs s) (c : Char) : Parts (cs ++ [c]) (s.step c) := by
  have place : (s.step c).place = (cs ++ [c]).length := by
    rw [place_step, h.place, List.length_append, List.length_singleton]
  by_cases plain : isPlain c
  · refine ⟨place, ?_, ?_⟩
    · rw [step_plain plain]
      exact List.forall_mem_cons.2 ⟨plain, h.plain⟩
    · obtain ⟨done, rfl, parts, free⟩ := h.split
      rw [step_plain plain]
      exact ⟨done, by simp, parts, free⟩
  · have ended := h.partition
    rw [step_of_not_plain plain] at place ⊢
    refine ⟨place, List.forall_mem_nil _, cs ++ [c], (List.append_nil _).symm, ?_, ?_⟩
    · rw [List.reverse_append, h.place]
      unfold bracketAt
      split_ifs with opening closing
      · rw [opening]
        exact ended.append (l := .opening) trivial nofun
      · rw [closing]
        exact ended.append (l := .closing) trivial nofun
      · have blank : isBlank c := by simpa [isPlain, opening, closing] using plain
        simpa using ended.blank blank
    · rw [List.length_append, List.length_singleton]
      refine List.forall_mem_append.2 ⟨fun t ht word => ?_, fun t ht _ => ?_⟩
      · unfold bracketAt at ht
        split_ifs at ht <;> simp_all [Lexeme.isWord]
      · have := (ended.inside t (List.mem_reverse.2 ht)).2
        omega

theorem Parts.foldl (h : Parts cs s) (ds : List Char) :
    Parts (cs ++ ds) (ds.foldl Scan.step s) := by
  induction ds generalizing cs s with
  | nil => simpa using h
  | cons d ds ih => simpa using ih (h.step d)

end Scan

theorem Token.partition_scan (text : String) : Partition text.toList (scan text) :=
  (Scan.Parts.empty.foldl text.toList).partition

/-- The tokens of a text are the one partition of it. -/
theorem Token.partition_iff_eq_scan (text : String) (ts : List Token) :
    Partition text.toList ts ↔ ts = scan text := by
  constructor
  · exact fun h => h.unique (partition_scan text)
  · rintro rfl
    exact partition_scan text

/-- Places count characters, and an em space is white space. -/
example : Token.scan "(é\u2003mean)" =
    [⟨.opening, ⟨0, 1⟩⟩, ⟨.word "é", ⟨1, 2⟩⟩, ⟨.word "mean", ⟨3, 7⟩⟩, ⟨.closing, ⟨7, 8⟩⟩] := by
  decide

end Formula
