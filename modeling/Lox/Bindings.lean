/-!
# Names bound to something

A `Bindings α` binds names, each at most once, in the order in which they first came.

* `find? b n`: what `n` is bound to;
* `put b n a`: binds `n` to `a`, in place of what it was bound to.

What each operation does to `find?` is said by one lemma each.
-/

namespace Lox

/-- Names, each with what it is bound to. -/
abbrev Bindings (α : Type) := List (String × α)

namespace Bindings

variable {α : Type}

/-- What a name is bound to. -/
def find? : Bindings α → String → Option α
  | [], _ => none
  | (m, a) :: rest, n => if m = n then some a else find? rest n

/-- Binds a name. -/
def put : Bindings α → String → α → Bindings α
  | [], n, a => [(n, a)]
  | (m, b) :: rest, n, a => if m = n then (n, a) :: rest else (m, b) :: put rest n a

/-- Whether a name is bound. -/
def binds (b : Bindings α) (n : String) : Bool := (b.find? n).isSome

/-- The bound names, in the order in which they first came. -/
def names (b : Bindings α) : List String := b.map Prod.fst

/-- The bindings that some pairs make, the later ones in place of the earlier. -/
def ofPairs (ps : List (String × α)) : Bindings α := ps.foldl (fun b p => put b p.1 p.2) []

@[simp] theorem find?_nil (n : String) : find? ([] : Bindings α) n = none := rfl

theorem find?_put (b : Bindings α) (n m : String) (a : α) :
    (b.put n a).find? m = if n = m then some a else b.find? m := by
  induction b with
  | nil => rfl
  | cons p rest ih =>
    obtain ⟨k, c⟩ := p
    by_cases hk : k = n
    · subst hk
      by_cases hm : k = m <;> simp [put, find?, hm]
    · by_cases hm : k = m
      · subst hm
        simp [put, find?, hk, Ne.symm hk]
      · simp [put, find?, hk, hm, ih]

@[simp] theorem find?_put_self (b : Bindings α) (n : String) (a : α) :
    (b.put n a).find? n = some a := by simp [find?_put]

theorem find?_put_ne (b : Bindings α) {n m : String} (a : α) (h : n ≠ m) :
    (b.put n a).find? m = b.find? m := by simp [find?_put, h]

theorem mem_names_iff (b : Bindings α) (n : String) : n ∈ b.names ↔ b.binds n = true := by
  induction b with
  | nil => simp [names, binds]
  | cons p rest ih =>
    obtain ⟨k, c⟩ := p
    by_cases hk : k = n
    · simp [names, binds, find?, hk]
    · simpa [names, binds, find?, hk, Ne.symm hk] using ih

end Bindings

end Lox
