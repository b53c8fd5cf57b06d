import Lox.Proofs.Machine.Order
import Lox.Proofs.Token.Respelling

/-!
# What a program reads

A program reads its input a line at a time, whatever else it does in between.

* `lines`: the lines of a text, each with its end. `takeLine_bytesOf`: a reader takes the first of them.
* `nextLine_flushed`: reading a line, where the rest of the input is a text and no request is refused.
* `Between.left`: **what is left of the input where a line is read**: the lines behind those that the calls
  of `read` before have read (`linesRead`).
* `read_gives`: what a call of `read` comes to.

A line loses more than its end: the carriage returns in front of the end go as well (`Value.ofLine`).
-/

namespace Lox

/-! ## 1. Lines of a text -/

/-- The lines of a text, each with its end. The last one may have none. -/
def lines : List Char → List (List Char)
  | [] => []
  | c :: rest =>
    if c = '\n' then
      ['\n'] :: lines rest
    else
      match lines rest with
      | [] => [[c]]
      | line :: others => (c :: line) :: others

/-- A line without its end, which is a newline, or a carriage return and a newline. -/
def withoutEnd (line : List Char) : List Char :=
  match line.reverse with
  | '\n' :: '\r' :: body => body.reverse
  | '\n' :: body => body.reverse
  | _ => line

/-- Some characters without the carriage returns behind them. -/
def withoutReturns (cs : List Char) : List Char := (cs.reverse.dropWhile (· == '\r')).reverse

/-- A line that has an end is the first of its text. -/
theorem lines_closed {body : List Char} (h : '\n' ∉ body) (rest : List Char) :
    lines (body ++ '\n' :: rest) = (body ++ ['\n']) :: lines rest := by
  induction body with
  | nil => rfl
  | cons c body ih =>
    rw [List.mem_cons, not_or] at h
    rw [List.cons_append, lines, if_neg (Ne.symm h.1), ih h.2]
    rfl

/-- A line without an end is the only one. -/
theorem lines_open {body : List Char} (h : '\n' ∉ body) (hne : body ≠ []) :
    lines body = [body] := by
  induction body with
  | nil => exact absurd rfl hne
  | cons c body ih =>
    rw [List.mem_cons, not_or] at h
    rw [lines, if_neg (Ne.symm h.1)]
    by_cases hnil : body = []
    · rw [hnil]
      rfl
    · rw [ih h.2 hnil]

/-- **A text is empty, or a line without an end, or a line with an end and more lines.** -/
theorem lines_cases {P : List Char → Prop} (nil : P [])
    (alone : ∀ body, '\n' ∉ body → body ≠ [] → P body)
    (closed : ∀ body rest, '\n' ∉ body → P (body ++ '\n' :: rest)) (cs : List Char) : P cs := by
  by_cases h : '\n' ∈ cs
  · obtain ⟨body, rest, rfl, hbody⟩ := List.eq_append_cons_of_mem h
    exact closed body rest hbody
  · by_cases hne : cs = []
    · exact hne ▸ nil
    · exact alone cs h hne

/-- **Nothing more than its end is taken from a line** that has no carriage return left behind it. -/
theorem withoutReturns_eq_self {cs : List Char} (h : cs.getLast? ≠ some '\r') :
    withoutReturns cs = cs := by
  rw [← List.head?_reverse] at h
  have hkeeps : cs.reverse.dropWhile (· == '\r') = cs.reverse := by
    cases hrev : cs.reverse with
    | nil => rfl
    | cons c rest =>
      rw [hrev, List.head?_cons, ne_eq, Option.some.injEq] at h
      rw [List.dropWhile_cons_of_neg (by simpa using h)]
  rw [withoutReturns, hkeeps, List.reverse_reverse]

theorem withoutEnd_open {body : List Char} (h : '\n' ∉ body) : withoutEnd body = body := by
  unfold withoutEnd
  split
  · next hrev => exact absurd (List.mem_reverse.mp (hrev ▸ List.mem_cons_self)) h
  · next hrev => exact absurd (List.mem_reverse.mp (hrev ▸ List.mem_cons_self)) h
  · rfl

/-- Whether a carriage return belongs to the end of a line makes no difference where all go. -/
theorem withoutReturns_closed (body : List Char) :
    withoutReturns (withoutEnd (body ++ ['\n'])) = withoutReturns body := by
  have hrev : (body ++ ['\n']).reverse = '\n' :: body.reverse := by
    rw [List.reverse_append]
    rfl
  unfold withoutEnd withoutReturns
  rw [hrev]
  split
  · next front heq =>
    rw [(List.cons.inj heq).2, List.reverse_reverse]
    rfl
  · next front _ heq => rw [(List.cons.inj heq).2, List.reverse_reverse]
  · next _ hother => exact absurd rfl (hother _)

/-- Where there is no newline, what goes at the end are carriage returns. -/
theorem dropWhile_ends {cs : List Char} (h : '\n' ∉ cs) :
    cs.dropWhile (fun c => c == '\n' || c == '\r') = cs.dropWhile (· == '\r') := by
  induction cs with
  | nil => rfl
  | cons c rest ih =>
    rw [List.mem_cons, not_or] at h
    have hc : (c == '\n') = false := beq_eq_false_iff_ne.mpr (Ne.symm h.1)
    rw [List.dropWhile_cons, List.dropWhile_cons, hc, Bool.false_or, ih h.2]

theorem chomp_open {body : List Char} (h : '\n' ∉ body) :
    chomp (String.ofList body) = String.ofList (withoutReturns (withoutEnd body)) := by
  rw [withoutEnd_open h, chomp, String.toList_ofList, dropWhile_ends (List.mem_reverse.not.mpr h)]
  rfl

theorem chomp_closed {body : List Char} (h : '\n' ∉ body) :
    chomp (String.ofList (body ++ ['\n']))
      = String.ofList (withoutReturns (withoutEnd (body ++ ['\n']))) := by
  rw [withoutReturns_closed, chomp, String.toList_ofList, List.reverse_append, List.reverse_singleton,
    List.singleton_append, List.dropWhile_cons_of_pos rfl,
    dropWhile_ends (List.mem_reverse.not.mpr h)]
  rfl

/-! ## 2. Lines of the input -/

theorem takeLine_open {bytes : List UInt8} (h : 0x0A ∉ bytes) : takeLine bytes = (bytes, []) := by
  induction bytes with
  | nil => rfl
  | cons b rest ih =>
    rw [List.mem_cons, not_or] at h
    rw [takeLine, if_neg (Ne.symm h.1), ih h.2]

theorem takeLine_closed {bytes : List UInt8} (h : 0x0A ∉ bytes) (more : List UInt8) :
    takeLine (bytes ++ 0x0A :: more) = (bytes ++ [0x0A], more) := by
  induction bytes with
  | nil => rfl
  | cons b rest ih =>
    rw [List.mem_cons, not_or] at h
    rw [List.cons_append, takeLine, if_neg (Ne.symm h.1), ih h.2]
    rfl

/-- The bytes of some characters. -/
abbrev bytesOf (cs : List Char) : List UInt8 := Text.Utf8.encode (String.ofList cs)

theorem bytesOf_append (cs ds : List Char) : bytesOf (cs ++ ds) = bytesOf cs ++ bytesOf ds := by
  unfold bytesOf Text.Utf8.encode
  rw [String.toList_ofList, String.toList_ofList, String.toList_ofList, List.flatMap_append]

/-- Only a newline is written with its byte. -/
theorem newline_notMem_bytesOf {cs : List Char} (h : '\n' ∉ cs) : 0x0A ∉ bytesOf cs := by
  have hcount := Token.count_newline_encode (String.ofList cs)
  rw [String.toList_ofList, List.count_eq_zero.mpr h] at hcount
  exact List.count_eq_zero.mp hcount

theorem bytesOf_ne_nil {cs : List Char} (h : cs ≠ []) : bytesOf cs ≠ [] := by
  intro hnil
  have hdecoded := Token.decode?_encode (String.ofList cs)
  rw [show Text.Utf8.encode (String.ofList cs) = [] from hnil] at hdecoded
  have hempty : String.ofList cs = "" := (Option.some.inj hdecoded).symm
  exact h (String.toList_ofList.symm.trans ((congrArg String.toList hempty).trans String.toList_empty))

/-- **A reader takes the first line**, and finds the others behind it. -/
theorem takeLine_bytesOf (cs : List Char) : ∃ rest, lines rest = (lines cs).tail ∧
    takeLine (bytesOf cs) = (((lines cs).head?.map bytesOf).getD [], bytesOf rest) := by
  induction cs using lines_cases with
  | nil => exact ⟨[], rfl, rfl⟩
  | alone body h hne =>
    rw [lines_open h hne, takeLine_open (newline_notMem_bytesOf h)]
    exact ⟨[], rfl, rfl⟩
  | closed body rest h =>
    have hnewline (ds : List Char) : bytesOf ('\n' :: ds) = 0x0A :: bytesOf ds :=
      bytesOf_append ['\n'] ds
    rw [lines_closed h, bytesOf_append, hnewline, takeLine_closed (newline_notMem_bytesOf h)]
    refine ⟨rest, rfl, ?_⟩
    show _ = (bytesOf (body ++ ['\n']), _)
    rw [bytesOf_append]
    rfl

/-- A line has characters, and is a line of which its end is taken with the carriage returns. -/
theorem chomp_line {cs line : List Char} (h : (lines cs).head? = some line) :
    line ≠ [] ∧ chomp (String.ofList line) = String.ofList (withoutReturns (withoutEnd line)) := by
  induction cs using lines_cases with
  | nil => cases h
  | alone body hbody hne =>
    rw [lines_open hbody hne] at h
    cases h
    exact ⟨hne, chomp_open hbody⟩
  | closed body rest hbody =>
    rw [lines_closed hbody] at h
    cases h
    exact ⟨List.append_ne_nil_of_right_ne_nil _ (List.cons_ne_nil _ _), chomp_closed hbody⟩

/-! ## 3. Reading a line -/

/-- No request for a line is refused. -/
def Input.Open (i : Input) : Prop := ∀ k, i.refusals k = none

theorem Input.refusals_programLine (i : Input) : i.programLine.2.refusals = i.refusals := by
  have hbehind (n : Nat) : (i.behindProgram n).refusals = i.refusals := by
    unfold behindProgram
    split <;> rfl
  unfold programLine asked
  split <;> exact hbehind _

section

variable {m : Machine} {cs : List Char} {e : ConsoleError}

/-- Where output is not flushed, no line is read. -/
theorem nextLine_refused (h : m.sink.flush.1 = .error e) :
    m.nextLine = (.error e, { m with sink := m.sink.flush.2 }) := by
  have hflush : m.sink.flush = (.error e, m.sink.flush.2) := Prod.ext h rfl
  unfold Machine.nextLine
  rw [hflush]

/-- **Where it is, the first line is read.** -/
theorem nextLine_flushed (h : m.sink.flush.1 = .ok ()) (hopen : m.input.Open)
    (hinput : m.input.forProgram = bytesOf cs) :
    m.nextLine = (.ok ((lines cs).head?.map String.ofList),
      { m with sink := m.sink.flush.2, input := m.input.programLine.2 }) := by
  have hflush : m.sink.flush = (.ok (), m.sink.flush.2) := Prod.ext h rfl
  obtain ⟨rest, -, htake⟩ := takeLine_bytesOf cs
  have hline : m.input.programLine.1 = .ok (((lines cs).head?.map bytesOf).getD []) := by
    rw [Input.programLine_fst (hopen _), hinput, htake]
  have hpair : m.input.programLine
      = (.ok (((lines cs).head?.map bytesOf).getD []), m.input.programLine.2) := Prod.ext hline rfl
  unfold Machine.nextLine
  rw [hflush, hpair]
  cases hfirst : (lines cs).head? with
  | none => rfl
  | some line =>
    dsimp only [Option.map_some, Option.getD_some]
    split
    · next herror => exact nomatch herror
    · next hnil => exact absurd (Except.ok.inj hnil) (bytesOf_ne_nil (chomp_line hfirst).1)
    · next heq =>
      rw [← Except.ok.inj heq, Token.decode?_encode]

/-- What is left behind a line. -/
theorem left_of_flushed (h : m.sink.flush.1 = .ok ()) (hopen : m.input.Open)
    (hinput : m.input.forProgram = bytesOf cs) :
    m.nextLine.2.input.Open ∧
      ∃ rest, lines rest = (lines cs).tail ∧ m.nextLine.2.input.forProgram = bytesOf rest := by
  obtain ⟨rest, hlines, htake⟩ := takeLine_bytesOf cs
  rw [nextLine_flushed h hopen hinput]
  refine ⟨fun k => ?_, rest, hlines, ?_⟩
  · show m.input.programLine.2.refusals k = none
    rw [Input.refusals_programLine, hopen k]
  · show m.input.programLine.2.forProgram = _
    rw [Input.forProgram_programLine (hopen _), hinput, htake]

/-- What a program gets for a line. -/
def Value.ofLine : Option (List Char) → Value
  | some line => .text (String.ofList (withoutReturns (withoutEnd line)))
  | none => .nil

/-- A line comes unaltered if no carriage return is left behind it. -/
theorem Value.ofLine_unaltered {line : List Char} (h : (withoutEnd line).getLast? ≠ some '\r') :
    Value.ofLine (some line) = .text (String.ofList (withoutEnd line)) := by
  rw [Value.ofLine, withoutReturns_eq_self h]

end

/-! ## 4. One line after another -/

/-- How many of some calls could flush the output, and so had a line read. -/
def linesRead (calls : List Visit) : Nat := calls.countP fun v => v.machine.sink.flush.1.isOk

/-- Where every flush succeeds, every call reads a line. -/
theorem linesRead_take {calls : List Visit} (h : ∀ v ∈ calls, v.machine.sink.flush.1 = .ok ()) {k : Nat}
    (hk : k ≤ calls.length) : linesRead (calls.take k) = k := by
  have hall : ∀ v ∈ calls.take k, v.machine.sink.flush.1.isOk = true := fun v hv => by
    rw [h v (List.mem_of_mem_take hv)]
    rfl
  rw [linesRead, List.countP_eq_length.mpr hall, List.length_take, Nat.min_eq_left hk]

/-- A call of `read` reads a line. -/
theorem Visit.Reads.after {v : Visit} (h : v.Reads) : v.after = v.machine.nextLine.2 := by
  obtain ⟨fuel, c, m⟩ := v
  obtain ⟨hfuel, hread⟩ := h
  obtain ⟨n, rfl⟩ := Nat.exists_eq_succ_of_ne_zero hfuel
  obtain ⟨args, paren, rfl⟩ := Call.isRead_iff.mp hread
  exact congrArg Prod.snd (read_run args paren m)

section

variable {m m' : Machine} {cs : List Char} {calls : List Visit} {v : Visit} {k : Nat}

/-- **What is left where a line is read**: the lines behind those that were read before. -/
theorem Between.left (h : Between m calls m') (hreads : ∀ u ∈ calls, u.Reads) (hopen : m.input.Open)
    (hinput : m.input.forProgram = bytesOf cs) (hk : calls[k]? = some v) :
    v.machine.input.Open ∧ ∃ rest, lines rest = (lines cs).drop (linesRead (calls.take k)) ∧
      v.machine.input.forProgram = bytesOf rest := by
  induction h generalizing k cs with
  | still => cases hk
  | @call m m' u calls hsame _ ih =>
    rw [← hsame] at hinput hopen
    cases k with
    | zero =>
      cases hk
      exact ⟨hopen, cs, rfl, hinput⟩
    | succ k =>
      have hafter := (hreads u List.mem_cons_self).after
      have hlater := fun w hw => hreads w (List.mem_cons_of_mem _ hw)
      rw [hafter] at ih
      cases hflush : u.machine.sink.flush.1 with
      | ok =>
        obtain ⟨hopen', rest, hlines, hleft⟩ := left_of_flushed hflush hopen hinput
        obtain ⟨hopen'', rest', hlines', hleft'⟩ := ih hlater hopen' hleft hk
        refine ⟨hopen'', rest', ?_, hleft'⟩
        rw [hlines', hlines, List.take_succ_cons, linesRead, linesRead, List.countP_cons_of_pos,
          List.drop_tail]
        rw [hflush]
        rfl
      | error e =>
        have hkept : u.machine.nextLine.2.input = u.machine.input := by rw [nextLine_refused hflush]
        obtain ⟨hopen', rest, hlines, hleft⟩ := ih hlater (hkept ▸ hopen) (hkept ▸ hinput) hk
        refine ⟨hopen', rest, ?_, hleft⟩
        rw [hlines, List.take_succ_cons, linesRead, linesRead, List.countP_cons_of_neg]
        rw [hflush]
        exact Bool.false_ne_true

end

/-- What a call of `read` comes to, by the outcome of the flush in front of it. -/
structure Answers (m : Machine) (x : Run Value) (paren : Token) (line : Option (List Char)) : Prop where
  flushed : m.sink.flush.1 = .ok () → (x.run m).1 = .ok (.ofLine line)
  refused : ∀ e, m.sink.flush.1 = .error e →
    (x.run m).1 = .error (.error (.native e.message paren.pos)) ∧ (x.run m).2.input = m.input

/-- **A call of `read`** gives the first of the lines that are left. -/
theorem read_gives {n : Nat} {args : List Value} {paren : Token} {m : Machine} {rest : List Char}
    (hopen : m.input.Open) (hleft : m.input.forProgram = bytesOf rest) :
    Answers m (apply (n + 1) (.native .read) args paren) paren (lines rest).head? where
  flushed hflush := by
    show ((Native.call .read args paren).run m).1 = _
    rw [read_run, nextLine_flushed hflush hopen hleft]
    cases hfirst : (lines rest).head? with
    | none => rfl
    | some line =>
      show Except.ok (Value.text (chomp (String.ofList line))) = _
      rw [(chomp_line hfirst).2]
      rfl
  refused e hflush := by
    show ((Native.call .read args paren).run m).1 = _ ∧ ((Native.call .read args paren).run m).2.input = _
    rw [read_run, nextLine_refused hflush]
    exact ⟨rfl, rfl⟩

end Lox
