import Formula.Parser
import Formula.Proofs.Shape

/-!
# The grammar

`Derives n m e ts` says that the tokens `ts` write the expression `e` in notation `n` with brackets
nested at most `m` deep.  A variable is written by its name, a constant by any word that reads as
it, and an operation by any of its signs together with as many operands as it takes, in brackets.

What is said here needs no parser: the nesting that a derivation allows can only grow (`mono`), it
bounds the depth of the expression (`depth_le`), and every word of a derivation is the name of a
variable, a numeral or a sign (`known`).
-/

namespace Formula

namespace Notation

variable {β γ : Type}

/-- Puts a sign in its place beside the operands. -/
def arrange (n : Notation) (sign : β) (operands : List β) : List β :=
  match n with
  | signFirst => sign :: operands
  | signLast => operands ++ [sign]

theorem map_arrange (n : Notation) (f : β → γ) (sign : β) (operands : List β) :
    (n.arrange sign operands).map f = n.arrange (f sign) (operands.map f) := by
  cases n <;> simp [arrange]

theorem map_eq_arrange {n : Notation} {f : β → γ} {xs : List β} {sign : γ} {operands : List γ}
    (h : xs.map f = n.arrange sign operands) :
    ∃ x ys, xs = n.arrange x ys ∧ f x = sign ∧ ys.map f = operands := by
  cases n with
  | signFirst =>
    obtain ⟨x, ys, rfl, hx, hys⟩ := List.map_eq_cons_iff.1 h
    exact ⟨x, ys, rfl, hx, hys⟩
  | signLast =>
    obtain ⟨ys, last, rfl, hys, hlast⟩ := List.map_eq_append_iff.1 h
    obtain ⟨x, rfl, hx⟩ := List.map_eq_singleton_iff.1 hlast
    exact ⟨x, ys, rfl, hx, hys⟩

theorem mem_arrange {n : Notation} {sign : β} {operands : List β} {x : β} :
    x ∈ n.arrange sign operands ↔ x = sign ∨ x ∈ operands := by
  cases n <;> simp [arrange, or_comm]

theorem takeSign_arrange (n : Notation) (sign : Item) (items : List Item) :
    n.takeSign (n.arrange sign items) = some (sign, items) := by
  cases n <;> simp [arrange, takeSign]

end Notation

mutual

/-- The tokens write the expression, with brackets nested at most as deep as the number says. -/
inductive Derives (n : Notation) : Nat → Expr → List Lexeme → Prop
  | var {m : Nat} (v : Var) : Derives n m (.var v) [.word v.name]
  | const {m : Nat} {w : String} {c : Float} (numeral : Decimal.read? w = some c) :
      Derives n m (.const c) [.word w]
  | op {m : Nat} {o : Op} {sign : String} {args : List Expr} {ts : List Lexeme}
      (known : sign ∈ o.signs) (count : o.arity.accepts args.length)
      (operands : DerivesAll n m args ts) :
      Derives n (m + 1) (.op o args) (.opening :: (n.arrange (.word sign) ts ++ [.closing]))

/-- The tokens write the expressions one after the other. -/
inductive DerivesAll (n : Notation) : Nat → List Expr → List Lexeme → Prop
  | nil {m : Nat} : DerivesAll n m [] []
  | cons {m : Nat} {e : Expr} {es : List Expr} {ts us : List Lexeme}
      (head : Derives n m e ts) (tail : DerivesAll n m es us) :
      DerivesAll n m (e :: es) (ts ++ us)

end

variable {n : Notation}

mutual

/-- More nesting may be allowed than a derivation needs. -/
theorem Derives.mono {m m' : Nat} {e : Expr} {ts : List Lexeme} (h : m ≤ m') :
    Derives n m e ts → Derives n m' e ts
  | .var v => .var v
  | .const numeral => .const numeral
  | .op known count operands => by
    obtain ⟨k, rfl⟩ : ∃ k, m' = k + 1 := ⟨m' - 1, by omega⟩
    exact .op known count (operands.mono (by omega))

theorem DerivesAll.mono {m m' : Nat} {es : List Expr} {ts : List Lexeme} (h : m ≤ m') :
    DerivesAll n m es ts → DerivesAll n m' es ts
  | .nil => .nil
  | .cons head tail => .cons (head.mono h) (tail.mono h)

end

mutual

theorem Derives.fits {m : Nat} {e : Expr} {ts : List Lexeme} : Derives n m e ts → e.fits
  | .var _ => rfl
  | .const _ => rfl
  | .op _ count operands => Term.fits_op.2 ⟨count, operands.fits⟩

theorem DerivesAll.fits {m : Nat} {es : List Expr} {ts : List Lexeme} :
    DerivesAll n m es ts → ∀ e ∈ es, e.fits
  | .nil => List.forall_mem_nil _
  | .cons head tail => List.forall_mem_cons.2 ⟨head.fits, tail.fits⟩

end

mutual

theorem Derives.depth_le {m : Nat} {e : Expr} {ts : List Lexeme} :
    Derives n m e ts → e.depth ≤ m + 1
  | .var _ => Nat.le_add_left 1 m
  | .const _ => Nat.le_add_left 1 m
  | .op _ _ operands => Expr.depth_op_le_iff.2 operands.depth_le

theorem DerivesAll.depth_le {m : Nat} {es : List Expr} {ts : List Lexeme} :
    DerivesAll n m es ts → ∀ e ∈ es, e.depth ≤ m + 1
  | .nil => List.forall_mem_nil _
  | .cons head tail => List.forall_mem_cons.2 ⟨head.depth_le, tail.depth_le⟩

end

/-- A word that may stand in an expression: the name of a variable, a numeral or a sign. -/
def Lexeme.Known : Lexeme → Prop
  | .word w => (∃ v : Var, v.name = w) ∨ (∃ c, Decimal.read? w = some c) ∨ ∃ o, Op.ofSign? w = some o
  | _ => True

mutual

theorem Derives.known {m : Nat} {e : Expr} {ts : List Lexeme} :
    Derives n m e ts → ∀ t ∈ ts, t.Known
  | .var v => List.forall_mem_singleton.2 (.inl ⟨v, rfl⟩)
  | .const numeral => List.forall_mem_singleton.2 (.inr (.inl ⟨_, numeral⟩))
  | .op (o := o) known _ operands => by
    intro t ht
    simp only [List.mem_cons, List.mem_append, Notation.mem_arrange, List.not_mem_nil,
      or_false] at ht
    rcases ht with rfl | (rfl | ht) | rfl
    · trivial
    · exact .inr (.inr ⟨o, Op.ofSign?_of_mem _ known⟩)
    · exact operands.known t ht
    · trivial

theorem DerivesAll.known {m : Nat} {es : List Expr} {ts : List Lexeme} :
    DerivesAll n m es ts → ∀ t ∈ ts, t.Known
  | .nil => List.forall_mem_nil _
  | .cons head tail => List.forall_mem_append.2 ⟨head.known, tail.known⟩

end

end Formula
