import Lox.Completion
import Lox.Proofs.Session.Globals

/-!
# What completion proposes

The word before a cursor is the longest run of word characters that ends there, and the proposals are
the keywords and names that it is the start of.

* `WordChar`: ASCII letters, digits and the underscore.
* `front?_append`: a cursor between two characters cuts the line in two.
* `suffix_lastWord`: no run of word characters that ends at the cursor is longer than the word.
* `eraseDups_sublist`, `nodup_eraseDups`: dropping repetitions keeps the order, and leaves none.
* `completion_is_exact`: **the word is the longest there is, and the proposals are exact**, for every
  line, cursor and list of names.
-/

namespace Lox

/-! ## 1. Dropping repetitions -/

section

variable {α : Type} [BEq α]

/-- Induction along the dropping of repetitions: what is equal to the first goes, then the others. -/
theorem eraseDups_induction {P : List α → Prop} (nil : P [])
    (cons : ∀ a rest, P (rest.filter fun b => !b == a) → P (a :: rest)) (l : List α) : P l := by
  induction hlen : l.length using Nat.strongRecOn generalizing l with
  | _ n ih =>
    cases l with
    | nil => exact nil
    | cons a rest =>
      have hle := List.length_filter_le (fun b => !b == a) rest
      rw [List.length_cons] at hlen
      exact cons a rest (ih _ (by omega) _ rfl)

/-- What is left stands in the order in which it stood. -/
theorem eraseDups_sublist (l : List α) : l.eraseDups.Sublist l := by
  induction l using eraseDups_induction with
  | nil => exact List.Sublist.refl []
  | cons a rest ih =>
    rw [List.eraseDups_cons]
    exact (ih.trans List.filter_sublist).cons_cons a

/-- Nothing is left twice. -/
theorem nodup_eraseDups [LawfulBEq α] (l : List α) : l.eraseDups.Nodup := by
  induction l using eraseDups_induction with
  | nil => exact List.nodup_nil
  | cons a rest ih =>
    rw [List.eraseDups_cons]
    refine List.nodup_cons.mpr ⟨fun hmem => ?_, ih⟩
    have hne := (List.mem_filter.mp (List.mem_eraseDups.mp hmem)).2
    simp at hne

end

namespace Completion

/-! ## 2. The word before a cursor -/

/-- **A character of a word**: an ASCII letter, a digit or an underscore. -/
def WordChar (c : Char) : Prop :=
  ('a' ≤ c ∧ c ≤ 'z') ∨ ('A' ≤ c ∧ c ≤ 'Z') ∨ ('0' ≤ c ∧ c ≤ '9') ∨ c = '_'

theorem inWord_iff (c : Char) : inWord c = true ↔ WordChar c := by
  simp only [inWord, WordChar, Char.isAlphanum, Char.isAlpha, Char.isUpper, Char.isLower, Char.isDigit,
    Char.le_def, Bool.or_eq_true, Bool.and_eq_true, decide_eq_true_eq, beq_iff_eq, ge_iff_le]
  constructor
  · rintro (((h | h) | h) | h)
    exacts [.inr (.inl h), .inl h, .inr (.inr (.inl h)), .inr (.inr (.inr h))]
  · rintro (h | h | h | h)
    exacts [.inl (.inl (.inr h)), .inl (.inl (.inl h)), .inl (.inr h), .inr h]

/-- A character of a word takes one byte. -/
theorem utf8Size_of_wordChar {c : Char} (h : WordChar c) : c.utf8Size = 1 := by
  rw [Char.utf8Size_eq_one_iff]
  rcases h with h | h | h | rfl
  · exact UInt32.le_trans h.2 (by decide)
  · exact UInt32.le_trans h.2 (by decide)
  · exact UInt32.le_trans h.2 (by decide)
  · decide

/-- A word has as many bytes as characters. -/
theorem utf8ByteSize_of_wordChars {cs : List Char} (h : ∀ c ∈ cs, WordChar c) :
    (String.ofList cs).utf8ByteSize = cs.length := by
  induction cs with
  | nil => rfl
  | cons c rest ih =>
    rw [String.ofList_cons, String.utf8ByteSize_append, String.utf8ByteSize_singleton,
      utf8Size_of_wordChar (h c List.mem_cons_self), ih fun d hd => h d (List.mem_cons_of_mem c hd),
      List.length_cons, Nat.add_comm]

/-- **A cursor between two characters has in front of it what stands there.** -/
theorem front?_append (before after : List Char) :
    front? (String.ofList before).utf8ByteSize (before ++ after) = some before := by
  induction before with
  | nil => simp [front?]
  | cons c rest ih =>
    have hsize : (String.ofList (c :: rest)).utf8ByteSize
        = c.utf8Size + (String.ofList rest).utf8ByteSize := by
      rw [String.ofList_cons, String.utf8ByteSize_append, String.utf8ByteSize_singleton]
    obtain ⟨n, hn⟩ : ∃ n, (String.ofList (c :: rest)).utf8ByteSize = n + 1 :=
      Nat.exists_eq_succ_of_ne_zero (by have := c.utf8Size_pos; omega)
    rw [List.cons_append, hn, front?, if_pos (by omega), ← hn, hsize, Nat.add_sub_cancel_left, ih,
      Option.map_some]

theorem wordChar_of_mem_lastWord {cs : List Char} {c : Char} (h : c ∈ lastWord cs) : WordChar c :=
  (inWord_iff c).mp (List.all_eq_true.mp List.all_takeWhile c (List.mem_reverse.mp h))

/-- The word stands at the end. -/
theorem lastWord_suffix (cs : List Char) : lastWord cs <:+ cs :=
  List.reverse_prefix.mp (by
    rw [lastWord, List.reverse_reverse]
    exact List.takeWhile_prefix inWord)

/-- **No run of word characters at the end is longer than the word.** -/
theorem suffix_lastWord {cs run : List Char} (hrun : run <:+ cs) (hword : ∀ c ∈ run, WordChar c) :
    run <:+ lastWord cs := by
  obtain ⟨front, rfl⟩ := hrun
  rw [← List.reverse_prefix, lastWord, List.reverse_reverse, List.reverse_append,
    List.takeWhile_append_of_pos fun c hc => (inWord_iff c).mpr (hword c (List.mem_reverse.mp hc))]
  exact List.prefix_append _ _

/-! ## 3. The proposals -/

/-- **Exactly the keywords and names that start with the word are proposed.** -/
theorem mem_candidates {word : List Char} {names : List String} {n : String} :
    n ∈ candidates word names ↔
      word ≠ [] ∧ (n ∈ Token.keywords.map Prod.fst ∨ n ∈ names) ∧ word <+: n.toList := by
  unfold candidates
  split
  case isTrue h => exact ⟨fun hmem => absurd hmem List.not_mem_nil, fun hall => absurd h hall.1⟩
  case isFalse h =>
    rw [List.mem_eraseDups, (Text.sorted_perm _).mem_iff, List.mem_filter, List.mem_append,
      List.isPrefixOf_iff_prefix]
    exact ⟨fun hall => ⟨h, hall⟩, fun hall => hall.2⟩

/-- The proposals go up in their bytes, so each stands there once. -/
theorem candidates_ascending (word : List Char) (names : List String) :
    ((candidates word names).map Text.Utf8.encode).Pairwise (· < ·) := by
  unfold candidates
  split
  case isTrue => exact List.Pairwise.nil
  case isFalse =>
    exact Text.Utf8.encode_pairwise
      ((Text.pairwise_sorted _).sublist (eraseDups_sublist _)) (nodup_eraseDups _)

end Completion

/-! ## 4. Completion -/

open Completion in
/-- **Completion is exact.** A cursor on a character boundary cuts a line into what stands before it
    and after it. The word is the longest run of word characters that ends at the cursor, and starts
    on a boundary too; the proposals are in strict order, and they are the keywords and names that the
    word is the start of, or none if it is empty. -/
theorem completion_is_exact (before after : String) (names : List String) :
    ∃ front word found, before = front ++ word ∧
      complete (before ++ after) before.utf8ByteSize names = some ⟨front.utf8ByteSize, found⟩ ∧
      (∀ c ∈ word.toList, WordChar c) ∧
      (∀ run, run <:+ before.toList → (∀ c ∈ run, WordChar c) → run <:+ word.toList) ∧
      (found.map Text.Utf8.encode).Pairwise (· < ·) ∧
      ∀ n, n ∈ found ↔
        word ≠ "" ∧ (n ∈ Token.keywords.map Prod.fst ∨ n ∈ names) ∧ word.toList <+: n.toList := by
  obtain ⟨front, hfront⟩ := lastWord_suffix before.toList
  have hchars : ∀ c ∈ lastWord before.toList, WordChar c := fun c hc => wordChar_of_mem_lastWord hc
  have hbefore : before = String.ofList front ++ String.ofList (lastWord before.toList) := by
    rw [← String.ofList_append, hfront, String.ofList_toList]
  have hcut : front? before.utf8ByteSize (before ++ after).toList = some before.toList := by
    have := front?_append before.toList after.toList
    rwa [String.ofList_toList, ← String.toList_append] at this
  have hstart : before.utf8ByteSize - (lastWord before.toList).length
      = (String.ofList front).utf8ByteSize := by
    have hsize := congrArg String.utf8ByteSize hbefore
    rw [String.utf8ByteSize_append, utf8ByteSize_of_wordChars hchars] at hsize
    omega
  refine ⟨String.ofList front, String.ofList (lastWord before.toList),
    candidates (lastWord before.toList) names, hbefore, ?_, ?_, ?_, candidates_ascending _ _, ?_⟩
  · simp only [complete, hcut, Option.map_some, hstart]
  · rwa [String.toList_ofList]
  · intro run hrun hword
    rw [String.toList_ofList]
    exact suffix_lastWord hrun hword
  · intro n
    rw [mem_candidates, String.toList_ofList, ne_eq, ne_eq, ← String.toList_inj, String.toList_ofList,
      String.toList_empty]

/-- A word of two letters, behind a character of two bytes. -/
example : complete "é + co" 7 ["counter", "clock", "counter"]
    = some ⟨5, ["continue", "counter"]⟩ := by cbv

end Lox
