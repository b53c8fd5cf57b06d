import Lox.Text.Cluster.Table

/-!
# Grapheme clusters

What a reader takes for one character may be several: a letter with its marks, a syllable of
jamo, a pictograph joined to others, a flag. This file cuts a text into such clusters, by the rules
for extended grapheme clusters of Unicode 17.

* `Kind` is what the rules ask about a character, and `kindOf` looks it up;
* `Trail` is what they ask about the text in front of a place, and `Trail.add` keeps it up to date;
* `Trail.joins` holds the rules: whether there is no boundary in front of the next character;
* `clusters` cuts a text at every boundary. It loses nothing (`flatten_clusters`), and no cluster is
  empty (`ne_nil_of_mem_clusters`).
-/

namespace Lox.Text.Cluster

/-! ## 1. Kinds of characters -/

/-- What the rules ask about a character. -/
inductive Kind where
  | carriageReturn
  | lineFeed
  | control
  /-- Belongs to the character in front. -/
  | extending
  /-- The zero width joiner. -/
  | joiner
  /-- Takes room of its own and belongs to the character in front. -/
  | spacing
  /-- Belongs to the character behind. -/
  | prepended
  /-- Half of a flag. -/
  | regional
  /-- A jamo that starts a syllable. -/
  | leading
  /-- A jamo in the middle of a syllable. -/
  | vowel
  /-- A jamo that ends a syllable. -/
  | trailing
  /-- A syllable without an end, which may still get one. -/
  | openSyllable
  /-- A syllable with its end. -/
  | closedSyllable
  /-- A consonant that a linker joins to the next one. -/
  | consonant
  | pictograph
  | other
deriving DecidableEq, Repr

/-- Jamo that start a syllable. -/
def leadingRanges : Ranges := [(0x1100, 0x115F), (0xA960, 0xA97C)]

/-- Jamo, and letters like them, in the middle of a syllable. -/
def vowelRanges : Ranges :=
  [(0x1160, 0x11A7), (0xD7B0, 0xD7C6), (0x16D63, 0x16D63), (0x16D67, 0x16D6A)]

/-- Jamo that end a syllable. -/
def trailingRanges : Ranges := [(0x11A8, 0x11FF), (0xD7CB, 0xD7FB)]

/-- Whole syllables. Each one without an end is followed by the 27 that have one. -/
def syllableRanges : Ranges := [(0xAC00, 0xD7A3)]

/-- Skin tones, which extend a pictograph. -/
def toneRanges : Ranges := [(0x1F3FB, 0x1F3FF)]

/-- Letters that stand for a region, two to a flag. -/
def regionalRanges : Ranges := [(0x1F1E6, 0x1F1FF)]

/-- The zero width joiner. -/
def joiner : Char := '\u200D'

/-- The zero width non-joiner. -/
def nonJoiner : Char := '\u200C'

/-- The kind of a character. -/
def kindOf (c : Char) : Kind :=
  if c = '\r' then .carriageReturn
  else if c = '\n' then .lineFeed
  else if controlRanges.has c then .control
  else if c = joiner then .joiner
  else if extendingRanges.has c || toneRanges.has c then .extending
  else if spacingRanges.has c then .spacing
  else if prependedRanges.has c then .prepended
  else if regionalRanges.has c then .regional
  else if leadingRanges.has c then .leading
  else if vowelRanges.has c then .vowel
  else if trailingRanges.has c then .trailing
  else if syllableRanges.has c then
    if (c.toNat - 0xAC00) % 28 = 0 then .openSyllable else .closedSyllable
  else if consonantRanges.has c then .consonant
  else if pictographRanges.has c then .pictograph
  else .other

/-- Whether a character may stand between two consonants that are joined. -/
def bridges (c : Char) : Bool :=
  (kindOf c = .extending || kindOf c = .joiner) && c ≠ nonJoiner

/-! ## 2. Boundaries -/

/-- What the rules ask about the text in front of a place. -/
structure Trail where
  /-- The kind of its last character, if it has one. -/
  last? : Option Kind
  /-- It ends in an odd number of regional letters. -/
  odd : Bool
  /-- It ends in a pictograph and what extends that. -/
  picture : Bool
  /-- It ends in a joiner behind such a pictograph. -/
  joined : Bool
  /-- It ends in a consonant and characters that bridge. -/
  consonant : Bool
  /-- It does so, and a linker is among them. -/
  linked : Bool
deriving DecidableEq, Repr

namespace Trail

/-- In front of a text there is nothing. -/
def start : Trail := ⟨none, false, false, false, false, false⟩

/-- The trail behind one more character. -/
def add (t : Trail) (c : Char) : Trail :=
  let k := kindOf c
  { last? := some k
    odd := k = .regional && !t.odd
    picture := k = .pictograph || (k = .extending && t.picture)
    joined := k = .joiner && t.picture
    consonant := k = .consonant || (bridges c && t.consonant)
    linked := bridges c && (t.linked || (linkerRanges.has c && t.consonant)) }

/-- Whether there is no boundary between a text and the next character. The first rule that speaks
    of the two kinds decides. -/
def joins (t : Trail) (k : Kind) : Bool :=
  match t.last?, k with
  | none, _ => false
  | some .carriageReturn, .lineFeed => true
  | some .carriageReturn, _ | some .lineFeed, _ | some .control, _ => false
  | _, .carriageReturn | _, .lineFeed | _, .control => false
  | some .leading, .leading | some .leading, .vowel
  | some .leading, .openSyllable | some .leading, .closedSyllable => true
  | some .openSyllable, .vowel | some .openSyllable, .trailing => true
  | some .vowel, .vowel | some .vowel, .trailing => true
  | some .closedSyllable, .trailing | some .trailing, .trailing => true
  | _, .extending | _, .joiner | _, .spacing => true
  | some .prepended, _ => true
  | _, .consonant => t.linked
  | _, .pictograph => t.joined
  | _, .regional => t.odd
  | _, _ => false

end Trail

/-! ## 3. Clusters -/

/-- What of a text still belongs to the cluster in front of it, and the clusters behind that. -/
def cut (t : Trail) : List Char → List Char × List (List Char)
  | [] => ([], [])
  | c :: cs =>
    let r := cut (t.add c) cs
    if t.joins (kindOf c) then (c :: r.1, r.2) else ([], (c :: r.1) :: r.2)

/-- The clusters of a text, front to back. -/
def clusters (cs : List Char) : List (List Char) := (cut .start cs).2

/-- What is cut is the text. -/
theorem cut_flatten (t : Trail) (cs : List Char) :
    (cut t cs).1 ++ (cut t cs).2.flatten = cs := by
  induction cs generalizing t with
  | nil => rfl
  | cons c cs ih =>
    rw [cut]
    split <;> simp [ih]

/-- Nothing belongs to a cluster in front of the text. -/
theorem cut_start_fst (cs : List Char) : (cut .start cs).1 = [] := by
  cases cs <;> simp [cut, Trail.joins, Trail.start]

/-- **Cutting a text loses no character.** -/
theorem flatten_clusters (cs : List Char) : (clusters cs).flatten = cs := by
  have h := cut_flatten .start cs
  rwa [cut_start_fst, List.nil_append] at h

theorem ne_nil_of_mem_cut {t : Trail} {cs k : List Char} (h : k ∈ (cut t cs).2) : k ≠ [] := by
  induction cs generalizing t with
  | nil => simp [cut] at h
  | cons c cs ih =>
    rw [cut] at h
    split at h
    · exact ih h
    · rcases List.mem_cons.1 h with rfl | h
      · exact List.cons_ne_nil _ _
      · exact ih h

/-- No cluster is empty. -/
theorem ne_nil_of_mem_clusters {cs k : List Char} (h : k ∈ clusters cs) : k ≠ [] :=
  ne_nil_of_mem_cut h

end Lox.Text.Cluster
