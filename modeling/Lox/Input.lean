import Lox.Console

/-!
# Input

The bytes that come in are read a line at a time, by two readers. A prompt reads its own lines
through a shared buffer; the programs that it runs have a buffer of their own in front of that one.

* A buffer is filled only when it is empty. The shared one then fetches a block from outside; that
  of the programs takes all that the shared one holds, or a block from outside if it holds nothing.
* So what a program reads may leave the rest of its block to later programs, and the prompt goes on
  behind that block.
* Each reader still sees the bytes in order: a line and what is left for its reader are what there
  was for it (`forProgram_programLine`, `forPrompt_promptLine`).
* A request for a line may be refused. What had been read of the line by then is lost.
-/

namespace Lox

/-! ## 1. Lines -/

/-- The first line of some bytes, with its end, and the rest. -/
def takeLine : List UInt8 → List UInt8 × List UInt8
  | [] => ([], [])
  | b :: rest =>
    if b = 0x0A then
      ([b], rest)
    else
      let r := takeLine rest
      (b :: r.1, r.2)

/-- A line and the rest behind it are what there was. -/
theorem takeLine_append (bytes : List UInt8) :
    (takeLine bytes).1 ++ (takeLine bytes).2 = bytes := by
  induction bytes with
  | nil => rfl
  | cons b rest ih =>
    rw [takeLine]
    split
    · rfl
    · simpa using ih

/-- The rest is what stands behind as many bytes as the line has. -/
theorem drop_length_takeLine (bytes : List UInt8) :
    bytes.drop (takeLine bytes).1.length = (takeLine bytes).2 := by
  have h := congrArg (List.drop (takeLine bytes).1.length) (takeLine_append bytes)
  rw [← h, List.drop_left]

/-- A text without the line ends at its end. -/
def chomp (text : String) : String :=
  String.ofList ((text.toList.reverse.dropWhile fun c => c == '\n' || c == '\r').reverse)

/-! ## 2. Buffers -/

/-- The bytes of a block. -/
def blockSize : Nat := 8192

/-- The bytes of the blocks that hold `n` bytes. -/
def wholeBlocks (n : Nat) : Nat := (n + blockSize - 1) / blockSize * blockSize

/-- The blocks that hold some bytes are not shorter. -/
theorem le_wholeBlocks (n : Nat) : n ≤ wholeBlocks n := by
  unfold wholeBlocks blockSize
  omega

/-- A buffer and what comes behind it, after `n` bytes were read through it. -/
def readThrough (n : Nat) (buffer coming : List UInt8) : List UInt8 × List UInt8 :=
  if n ≤ buffer.length then
    (buffer.drop n, coming)
  else
    let k := n - buffer.length
    ((coming.take (wholeBlocks k)).drop k, coming.drop (wholeBlocks k))

/-- Reading through a buffer takes the bytes in order. -/
theorem readThrough_append (n : Nat) (buffer coming : List UInt8) :
    (readThrough n buffer coming).1 ++ (readThrough n buffer coming).2
      = (buffer ++ coming).drop n := by
  unfold readThrough
  split
  · next h => exact (List.drop_append_of_le_length h).symm
  · next h =>
    have hb : buffer.drop n = [] := List.drop_eq_nil_of_le (by omega)
    simp only [List.drop_append, hb, List.nil_append]
    generalize n - buffer.length = k
    conv => rhs; rw [← List.take_append_drop (wholeBlocks k) coming]
    rw [List.drop_append]
    by_cases hk : k ≤ (coming.take (wholeBlocks k)).length
    · rw [Nat.sub_eq_zero_of_le hk, List.drop_zero]
    · have hl : coming.drop (wholeBlocks k) = [] := by
        have := le_wholeBlocks k
        apply List.drop_eq_nil_of_le
        simp only [List.length_take] at hk
        omega
      rw [hl, List.drop_nil]

/-! ## 3. Two readers -/

/-- The bytes not read yet, by where they are. -/
structure Input where
  /-- In the buffer of the programs. -/
  held : List UInt8
  /-- In the shared buffer. -/
  shared : List UInt8
  /-- Still outside. -/
  coming : List UInt8
  /-- How many lines have been asked for, by either reader. -/
  requests : Nat
  /-- Which requests are refused. -/
  refusals : Nat → Option Refusal

namespace Input

/-- Some bytes, none of which has been fetched, and no request is refused. -/
def ofBytes (bytes : List UInt8) : Input := ⟨[], [], bytes, 0, fun _ => none⟩

/-- What a program can still read. -/
def forProgram (i : Input) : List UInt8 := i.held ++ (i.shared ++ i.coming)

/-- What the prompt can still read. -/
def forPrompt (i : Input) : List UInt8 := i.shared ++ i.coming

/-- The input after a program has read `n` bytes. -/
def behindProgram (i : Input) (n : Nat) : Input :=
  if n ≤ i.held.length then
    { i with held := i.held.drop n }
  else
    let r := readThrough (n - i.held.length) i.shared i.coming
    { i with held := r.1, shared := [], coming := r.2 }

/-- The input after the prompt has read `n` bytes. -/
def behindPrompt (i : Input) (n : Nat) : Input :=
  let r := readThrough n i.shared i.coming
  { i with shared := r.1, coming := r.2 }

/-- What a request for a line comes to, with the input behind some bytes of it. -/
def asked (i : Input) (line : List UInt8) (behind : Nat → Input) :
    Except ConsoleError (List UInt8) × Input :=
  match i.refusals i.requests with
  | some r =>
    (.error (.refused r.reason),
      { behind (min r.taken line.length) with requests := i.requests + 1 })
  | none => (.ok line, { behind line.length with requests := i.requests + 1 })

/-- The next line for a program, with its end, and the input behind it. There is no byte in it only
    where there are no more lines. -/
def programLine (i : Input) : Except ConsoleError (List UInt8) × Input :=
  i.asked (takeLine i.forProgram).1 i.behindProgram

/-- The next line for the prompt, with its end, and the input behind it. -/
def promptLine (i : Input) : Except ConsoleError (List UInt8) × Input :=
  i.asked (takeLine i.forPrompt).1 i.behindPrompt

/-- A program finds the rest behind what it has read. -/
theorem forProgram_behindProgram (i : Input) (n : Nat) :
    (i.behindProgram n).forProgram = i.forProgram.drop n := by
  unfold behindProgram forProgram
  split
  · next h => exact (List.drop_append_of_le_length h).symm
  · next h =>
    have hh : i.held.drop n = [] := List.drop_eq_nil_of_le (by omega)
    rw [List.drop_append, hh, List.nil_append]
    simp only [List.nil_append, readThrough_append]

/-- The prompt finds the rest behind what it has read. -/
theorem forPrompt_behindPrompt (i : Input) (n : Nat) :
    (i.behindPrompt n).forPrompt = i.forPrompt.drop n := readThrough_append n i.shared i.coming

section

variable {i : Input} (h : i.refusals i.requests = none)

include h

/-- A program reads the first line of what it can read. -/
theorem programLine_fst : i.programLine.1 = .ok (takeLine i.forProgram).1 := by
  unfold programLine asked
  rw [h]

/-- **A program finds the rest behind its line.** -/
theorem forProgram_programLine :
    i.programLine.2.forProgram = (takeLine i.forProgram).2 := by
  unfold programLine asked
  rw [h, ← drop_length_takeLine]
  exact i.forProgram_behindProgram _

/-- The prompt reads the first line of what it can read. -/
theorem promptLine_fst : i.promptLine.1 = .ok (takeLine i.forPrompt).1 := by
  unfold promptLine asked
  rw [h]

/-- **The prompt finds the rest behind its line.** -/
theorem forPrompt_promptLine :
    i.promptLine.2.forPrompt = (takeLine i.forPrompt).2 := by
  unfold promptLine asked
  rw [h, ← drop_length_takeLine]
  exact i.forPrompt_behindPrompt _

end

/-- What programs hold is theirs. -/
theorem held_promptLine (i : Input) : i.promptLine.2.held = i.held := by
  unfold promptLine asked
  split <;> rfl

end Input

end Lox
