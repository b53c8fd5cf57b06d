import Lox.Text.Cluster

/-!
# Backspaces

A line that was typed may hold backspaces. Each one takes back the last cluster that is still there,
and where none is, it does nothing.

How much a cluster takes is kept in one byte, so of a cluster of 256 bytes or more only the
remainder goes. Where that would leave half a character, the line cannot be read at all.

* `dropLast?` takes bytes off the end of a text;
* `Typed` is a line as far as it has been typed, and `Typed.type?` takes in one more cluster;
* `erased?` is the line that is left; without a backspace, that is the line itself
  (`erased?_of_not_mem`).
-/

namespace Lox.Text

/-- The character that takes back. -/
def backspace : Char := '\x08'

/-- The number of bytes of some characters. -/
def byteSize : List Char → Nat
  | [] => 0
  | c :: cs => c.utf8Size + byteSize cs

/-- A text without its last `n` bytes, if they are whole characters. The text is given and returned
    from its end. -/
def dropLast? : (n : Nat) → List Char → Option (List Char)
  | 0, cs => some cs
  | _ + 1, [] => none
  | n + 1, c :: cs => if c.utf8Size ≤ n + 1 then dropLast? (n + 1 - c.utf8Size) cs else none

/-- A line as far as it has been typed. -/
structure Typed where
  /-- What is there, from its end. -/
  text : List Char
  /-- How many bytes each backspace to come takes. -/
  sizes : List Nat

namespace Typed

/-- Nothing has been typed. -/
def nothing : Typed := ⟨[], []⟩

/-- How many bytes can be kept for a cluster. -/
def sizeLimit : Nat := 256

/-- The line after one more cluster. -/
def type? (t : Typed) (cluster : List Char) : Option Typed :=
  if cluster = [backspace] then
    match t.sizes with
    | [] => some t
    | n :: sizes => (dropLast? n t.text).map fun text => ⟨text, sizes⟩
  else
    some ⟨cluster.reverse ++ t.text, byteSize cluster % sizeLimit :: t.sizes⟩

end Typed

/-- What is left of a typed line, if it can be read. -/
def erased? (line : List Char) : Option (List Char) :=
  ((Cluster.clusters line).foldlM Typed.type? Typed.nothing).map (·.text.reverse)

/-- Clusters among which no backspace is are all kept. -/
theorem foldlM_type?_of_not_mem {ks : List (List Char)} (h : [backspace] ∉ ks) (t : Typed) :
    (ks.foldlM Typed.type? t).map (·.text.reverse) = some (t.text.reverse ++ ks.flatten) := by
  induction ks generalizing t with
  | nil => simp
  | cons k ks ih =>
    simp only [List.mem_cons, not_or] at h
    rw [List.foldlM_cons, Typed.type?, if_neg (Ne.symm h.1)]
    simp [ih h.2]

/-- A line without a backspace stays as it is. -/
theorem erased?_of_not_mem {line : List Char} (h : backspace ∉ line) :
    erased? line = some line := by
  have hk : [backspace] ∉ Cluster.clusters line := fun hm =>
    h (Cluster.flatten_clusters line ▸ List.mem_flatten.2 ⟨_, hm, List.mem_singleton.2 rfl⟩)
  rw [erased?, foldlM_type?_of_not_mem hk, Cluster.flatten_clusters]
  rfl

end Lox.Text
