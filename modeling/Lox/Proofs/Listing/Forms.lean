import Lox.Syntax.Printer

/-!
# Forms

A listing is a tree of words, written with parentheses and spaces. What is written says which tree it is.

* `Leaf`: a word, so nothing in it separates words.
* `Form`: a tree of words; `Form.text` is how it is written.
* `Form.text_injective`: **no two forms are written alike.**
-/

namespace Lox

/-! ## 1. Words -/

/-- Whether a character stands between words. -/
def isSeparator (c : Char) : Bool := c == ' ' || c == '(' || c == ')'

/-- Nothing in a class of characters without the three separators stands between words. -/
theorem notSeparator_of_class (p : Char → Bool) (hspace : p ' ' = false) (hleft : p '(' = false)
    (hright : p ')' = false) {c : Char} (h : p c = true) : isSeparator c = false := by
  cases hc : isSeparator c with
  | false => rfl
  | true =>
    simp only [isSeparator, Bool.or_eq_true, beq_iff_eq] at hc
    rcases hc with (rfl | rfl) | rfl
    · exact h.symm.trans hspace
    · exact h.symm.trans hleft
    · exact h.symm.trans hright

/-- **A text is a word**: it has characters, none of which stands between words. -/
structure IsWord (text : String) : Prop where
  ne_empty : text.toList ≠ []
  inside : ∀ c ∈ text.toList, isSeparator c = false

theorem isWord_iff (text : String) :
    IsWord text ↔ text.toList ≠ [] ∧ text.toList.all (fun c => !isSeparator c) = true := by
  simp only [List.all_eq_true, Bool.not_eq_true']
  exact ⟨fun h => ⟨h.ne_empty, h.inside⟩, fun h => ⟨h.1, h.2⟩⟩

instance (text : String) : Decidable (IsWord text) := decidable_of_iff' _ (isWord_iff text)

/-- A word, as a part of a form. -/
structure Leaf where
  text : String
  isWord : IsWord text

@[ext] theorem Leaf.ext {v w : Leaf} (h : v.text = w.text) : v = w := by
  cases v
  cases w
  congr

/-- **A tree of words.** -/
inductive Form where
  | leaf (w : Leaf)
  | node (parts : List Form)

mutual

/-- How a form is written. -/
def Form.text : Form → String
  | .leaf w => w.text
  | .node parts => form (textsOf parts)

/-- How forms are written. -/
def textsOf : List Form → List String
  | [] => []
  | f :: rest => f.text :: textsOf rest

end

/-! ## 2. Where a form ends -/

/-- A separator, or nothing, is what comes next. -/
def Closed (cs : List Char) : Prop := ∀ c, cs.head? = some c → isSeparator c = true

/-- **A word ends where the next separator is.** -/
theorem word_append_inj {v w cs ds : List Char} (hv : ∀ c ∈ v, isSeparator c = false)
    (hw : ∀ c ∈ w, isSeparator c = false) (hcs : Closed cs) (hds : Closed ds)
    (h : v ++ cs = w ++ ds) : v = w ∧ cs = ds := by
  induction v generalizing w with
  | nil =>
    cases w with
    | nil => exact ⟨rfl, h⟩
    | cons c w =>
      have hc := hcs c (by rw [show cs = c :: w ++ ds from h]; rfl)
      rw [hw c List.mem_cons_self] at hc
      cases hc
  | cons c v ih =>
    cases w with
    | nil =>
      have hc := hds c (by rw [← show c :: v ++ cs = ds from h]; rfl)
      rw [hv c List.mem_cons_self] at hc
      cases hc
    | cons d w =>
      obtain ⟨rfl, hrest⟩ := List.cons.inj h
      obtain ⟨rfl, hend⟩ := ih (fun e he => hv e (List.mem_cons_of_mem c he))
        (fun e he => hw e (List.mem_cons_of_mem c he)) hrest
      exact ⟨rfl, hend⟩

/-- Forms behind the first of a node, each behind a space. -/
def spaced (fs : List Form) : List Char := fs.flatMap fun f => ' ' :: f.text.toList

theorem spaced_cons (f : Form) (rest : List Form) (more : List Char) :
    spaced (f :: rest) ++ more = ' ' :: (f.text.toList ++ (spaced rest ++ more)) := by
  rw [spaced, List.flatMap_cons, List.append_assoc]
  rfl

theorem intercalate_texts (f : Form) (rest : List Form) :
    (" ".intercalate (textsOf (f :: rest))).toList = f.text.toList ++ spaced rest := by
  induction rest generalizing f with
  | nil =>
    show (" ".intercalate [f.text]).toList = f.text.toList ++ []
    rw [String.intercalate_singleton, List.append_nil]
  | cons g rest ih =>
    show (" ".intercalate (f.text :: g.text :: textsOf rest)).toList = _
    rw [String.intercalate_cons_cons, String.toList_append, String.toList_append,
      show " ".intercalate (g.text :: textsOf rest) = " ".intercalate (textsOf (g :: rest)) from rfl,
      ih, List.append_assoc]
    rfl

theorem text_nil : (Form.node []).text.toList = ['(', ')'] := rfl

theorem text_cons (f : Form) (rest : List Form) (more : List Char) :
    (Form.node (f :: rest)).text.toList ++ more
      = '(' :: (f.text.toList ++ (spaced rest ++ ')' :: more)) := by
  rw [Form.text, form, String.toList_append, String.toList_append, intercalate_texts,
    List.append_assoc, List.append_assoc, List.append_assoc]
  rfl

theorem Leaf.head (w : Leaf) : ∃ c rest, w.text.toList = c :: rest ∧ isSeparator c = false := by
  obtain ⟨c, rest, h⟩ := List.exists_cons_of_ne_nil w.isWord.ne_empty
  exact ⟨c, rest, h, w.isWord.inside c (h ▸ List.mem_cons_self)⟩

theorem node_head (parts : List Form) : ∃ rest, (Form.node parts).text.toList = '(' :: rest := by
  cases parts with
  | nil => exact ⟨[')'], text_nil⟩
  | cons f rest =>
    have h := text_cons f rest []
    rw [List.append_nil] at h
    exact ⟨_, h⟩

/-- A word is no node. -/
theorem word_ne_node (w : Leaf) (parts : List Form) (cs ds : List Char) :
    w.text.toList ++ cs ≠ (Form.node parts).text.toList ++ ds := by
  obtain ⟨c, rest, hw, hc⟩ := w.head
  obtain ⟨inner, hparts⟩ := node_head parts
  rw [hw, hparts]
  intro h
  rw [(List.cons.inj h).1] at hc
  cases hc

/-- A form is not the end of a node. -/
theorem text_ne_paren (f : Form) (cs ds : List Char) : f.text.toList ++ cs ≠ ')' :: ds := by
  intro h
  cases f with
  | leaf w =>
    obtain ⟨c, rest, hw, hc⟩ := w.head
    rw [show (Form.leaf w).text.toList = c :: rest from hw] at h
    rw [(List.cons.inj h).1] at hc
    cases hc
  | node parts =>
    obtain ⟨inner, hparts⟩ := node_head parts
    rw [hparts] at h
    cases h

theorem closed_paren (more : List Char) : Closed (')' :: more) := by
  rintro c h
  cases h
  rfl

theorem closed_spaced (fs : List Form) (more : List Char) : Closed (spaced fs ++ ')' :: more) := by
  cases fs with
  | nil => exact closed_paren more
  | cons f rest =>
    rw [spaced_cons]
    rintro c h
    cases h
    rfl

mutual

/-- **A form ends where its text does**, whatever stands behind it. -/
theorem Form.text_append_inj (f g : Form) {cs ds : List Char} (hcs : Closed cs) (hds : Closed ds)
    (h : f.text.toList ++ cs = g.text.toList ++ ds) : f = g ∧ cs = ds := by
  match f, g with
  | .leaf v, .leaf w =>
    obtain ⟨htext, hend⟩ := word_append_inj v.isWord.inside w.isWord.inside hcs hds h
    exact ⟨congrArg Form.leaf (Leaf.ext (String.toList_inj.mp htext)), hend⟩
  | .leaf v, .node parts => exact absurd h (word_ne_node v parts cs ds)
  | .node parts, .leaf w => exact absurd h.symm (word_ne_node w parts ds cs)
  | .node [], .node [] => exact ⟨rfl, List.append_cancel_left h⟩
  | .node [], .node (g :: gs) =>
    rw [text_cons, text_nil] at h
    exact absurd (List.cons.inj h).2.symm (text_ne_paren g _ _)
  | .node (f :: fs), .node [] =>
    rw [text_cons, text_nil] at h
    exact absurd (List.cons.inj h).2 (text_ne_paren f _ _)
  | .node (f :: fs), .node (g :: gs) =>
    rw [text_cons, text_cons] at h
    obtain ⟨rfl, hrest⟩ := f.text_append_inj g (closed_spaced fs cs) (closed_spaced gs ds)
      (List.cons.inj h).2
    obtain ⟨rfl, hend⟩ := spaced_append_inj fs gs hrest
    exact ⟨rfl, hend⟩

theorem spaced_append_inj (fs gs : List Form) {cs ds : List Char}
    (h : spaced fs ++ ')' :: cs = spaced gs ++ ')' :: ds) : fs = gs ∧ cs = ds := by
  match fs, gs with
  | [], [] => exact ⟨rfl, (List.cons.inj h).2⟩
  | [], g :: gs =>
    rw [spaced_cons] at h
    cases h
  | f :: fs, [] =>
    rw [spaced_cons] at h
    cases h
  | f :: fs, g :: gs =>
    rw [spaced_cons, spaced_cons] at h
    obtain ⟨rfl, hrest⟩ := f.text_append_inj g (closed_spaced fs cs) (closed_spaced gs ds)
      (List.cons.inj h).2
    obtain ⟨rfl, hend⟩ := spaced_append_inj fs gs hrest
    exact ⟨rfl, hend⟩

end

/-- **No two forms are written alike.** -/
theorem Form.text_injective {f g : Form} (h : f.text = g.text) : f = g := by
  have hnone : Closed [] := fun c hc => nomatch hc
  exact (f.text_append_inj g hnone hnone (by rw [h])).1

end Lox
