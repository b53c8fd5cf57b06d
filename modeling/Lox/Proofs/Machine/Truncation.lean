import Lox.Proofs.Machine.Composition

/-!
# Runs with a limited sink

The same run, with a sink without a limit and with one that takes `L` bytes in all.

* `Sink.Extends`: what becomes of a sink. What it has taken stays in front, and it takes no more than its
  limit. `Consists.extends`: whatever runs, the sink becomes no other.
* `Cut H L m x`: **up to the first line that does not fit, the computation does the same on both sinks**,
  and there it fails on the limited one, with the error of the call that prints the line.
* `Consists.cut`: every computation is cut so, whatever it consists of.
-/

namespace Lox

/-! ## 1. Sinks -/

namespace Sink

/-- The sink with a limit. -/
def limited (L : Nat) (s : Sink) : Sink := { s with limit := some L }

/-- A sink that takes everything. -/
structure Open (s : Sink) : Prop where
  limit : s.limit = none
  flushes : s.flushFails = false
  refusals : ∀ k, s.refusals k = none

/-- **What becomes of a sink**: it has taken more, behind what it had taken, and is otherwise as it
    was. -/
structure Extends (s s' : Sink) : Prop where
  limit : s'.limit = s.limit
  flushFails : s'.flushFails = s.flushFails
  refusals : s'.refusals = s.refusals
  written : s.written.toList <+: s'.written.toList
  bounded : ∀ L, s.limit = some L → s.written.size ≤ L → s'.written.size ≤ L

variable {s s' s'' : Sink} {L : Nat}

theorem Extends.refl (s : Sink) : s.Extends s := ⟨rfl, rfl, rfl, List.prefix_refl _, fun _ _ h => h⟩

theorem Extends.trans (h : s.Extends s') (h' : s'.Extends s'') : s.Extends s'' where
  limit := h'.limit.trans h.limit
  flushFails := h'.flushFails.trans h.flushFails
  refusals := h'.refusals.trans h.refusals
  written := h.written.trans h'.written
  bounded L hL hs := h'.bounded L (h.limit.trans hL) (h.bounded L hL hs)

theorem Extends.size_le (h : s.Extends s') : s.written.size ≤ s'.written.size := h.written.length_le

theorem Extends.open (h : s.Extends s') (hs : s.Open) : s'.Open where
  limit := h.limit.trans hs.limit
  flushes := h.flushFails.trans hs.flushes
  refusals k := (congrFun h.refusals k).trans (hs.refusals k)

/-- Of a sink that has taken `L` bytes already, these stay the first ones. -/
theorem Extends.take_eq (h : s.Extends s') (hL : L ≤ s.written.size) :
    s'.written.toList.take L = s.written.toList.take L := by
  obtain ⟨more, hmore⟩ := h.written
  rw [← hmore, List.take_append_of_le_length hL]

/-- **A full sink** stays as it is. -/
theorem Extends.full (h : s.Extends s') (hlimit : s.limit = some L) (hfull : s.written.size = L) :
    s'.written.toList = s.written.toList :=
  (h.written.eq_of_length_le (Nat.le_trans (h.bounded L hlimit (Nat.le_of_eq hfull))
    (Nat.le_of_eq hfull.symm))).symm

theorem written_store (s : Sink) (bytes : List UInt8) :
    (s.store bytes).written.toList = s.written.toList ++ bytes := Array.toList_appendList

theorem size_store (s : Sink) (bytes : List UInt8) :
    (s.store bytes).written.size = s.written.size + bytes.length := by
  rw [← Array.length_toList, written_store, List.length_append, Array.length_toList]

theorem extends_store {bytes : List UInt8}
    (h : ∀ L, s.limit = some L → s.written.size ≤ L → s.written.size + bytes.length ≤ L) :
    s.Extends (s.store bytes) where
  limit := rfl
  flushFails := rfl
  refusals := rfl
  written := by
    rw [written_store]
    exact List.prefix_append _ _
  bounded L hL hs := by
    rw [size_store]
    exact h L hL hs

theorem extends_write (s : Sink) (bytes : List UInt8) : s.Extends (s.write bytes).2 := by
  have hfitting : ∀ L, s.limit = some L → s.written.size ≤ L →
      s.written.size + (s.fitting bytes).length ≤ L := by
    intro L hL hs
    rw [fitting, hL, List.length_take]
    omega
  unfold write
  split
  · refine extends_store fun L hL hs => Nat.le_trans (Nat.add_le_add_left ?_ _) (hfitting L hL hs)
    exact (List.take_sublist _ _).length_le
  · exact extends_store hfitting

theorem extends_flush (s : Sink) : s.Extends s.flush.2 := by
  unfold flush
  split <;> exact extends_store fun _ _ hs => hs

/-- An open sink takes all. -/
theorem Open.write (h : s.Open) (bytes : List UInt8) : s.write bytes = (.ok (), s.store bytes) := by
  simp [Sink.write, h.refusals, fits, fitting, h.limit]

/-- A limited sink takes what fits. -/
theorem Open.write_fits (h : s.Open) {bytes : List UInt8} (hfits : s.written.size + bytes.length ≤ L) :
    (s.limited L).write bytes = (.ok (), (s.store bytes).limited L) := by
  have htake : bytes.take (L - s.written.size) = bytes := List.take_of_length_le (by omega)
  simp [Sink.write, limited, h.refusals, fits, fitting, hfits, htake, store]

/-- **A limited sink takes the first bytes of what does not fit**, and says so. -/
theorem Open.write_over (h : s.Open) {bytes : List UInt8} (hs : s.written.size ≤ L)
    (hover : L < s.written.size + bytes.length) :
    (s.limited L).write bytes = (.error .full, (s.store (bytes.take (L - s.written.size))).limited L) ∧
      s.written.toList ++ bytes.take (L - s.written.size) = (s.written.toList ++ bytes).take L := by
  have hne : bytes ≠ [] := by
    rintro rfl
    exact Nat.lt_irrefl _ (Nat.lt_of_lt_of_le hover hs)
  refine ⟨?_, ?_⟩
  · have hnot : ¬ s.written.size + bytes.length ≤ L := Nat.not_le.mpr hover
    simp [Sink.write, limited, h.refusals, fits, fitting, hne, store, hnot]
  · have hwritten : s.written.toList.take L = s.written.toList := List.take_of_length_le hs
    rw [List.take_append, hwritten, Array.length_toList]

/-- Whether a sink has a limit makes no difference to a flush. -/
theorem flush_limited (L : Nat) (s : Sink) : (s.limited L).flush = (s.flush.1, s.flush.2.limited L) := by
  unfold flush limited
  dsimp only
  split <;> rfl

end Sink

/-! ## 2. What becomes of the sink -/

section

variable {α : Type} {H : History} {m : Machine} {x : Run α}

theorem nextLine_sink (m : Machine) : m.nextLine.2.sink = m.sink.flush.2 := by
  unfold Machine.nextLine
  split
  · next h => rw [h]
  · next h =>
    rw [h]
    dsimp only
    split
    · rfl
    · rfl
    · split <;> rfl

/-- **Whatever runs, a sink only takes more.** -/
theorem Consists.extends (h : Consists H m x) : m.sink.Extends (x.run m).2.sink := by
  induction h with
  | ends h =>
    rw [h]
    exact .refl _
  | sees _ _ ih => exact ih
  | bind _ _ ihx ihf =>
    exact run_bind_related (R := fun m m' => m.sink.Extends m'.sink) (fun _ _ _ => .trans) ihx ihf
  | frame | object | identity | field | rebinds | declares | clock | sleeps => exact .refl _
  | print =>
    rw [print_run]
    exact Sink.extends_write _ _
  | read =>
    rw [read_run, nextLine_sink]
    exact Sink.extends_flush _

/-! ## 3. One run on two sinks -/

/-- The machine with a limit to its sink. -/
def Machine.limited (L : Nat) (m : Machine) : Machine := { m with sink := m.sink.limited L }

/-- A line is the first that does not fit in `L` bytes. -/
structure Sink.Overflows (L : Nat) (s : Sink) (line : List UInt8) : Prop where
  fits : s.written.size ≤ L
  exceeds : L < s.written.size + line.length

/-- **A computation does the same on both sinks up to the first line that does not fit.** The call that
    prints that line is in the history, and fails on the limited sink, which is full then. -/
inductive Cut (H : History) (L : Nat) (m : Machine) (x : Run α) : Prop where
  | within (hfits : (x.run m).2.sink.written.size ≤ L)
      (hrun : x.run (m.limited L) = ((x.run m).1, (x.run m).2.limited L)) : Cut H L m x
  | cut {n v rest paren m₀ m'} (hcall : H ⟨n + 1, .apply (.native .print) (v :: rest) paren, m₀⟩)
      (hline : m₀.sink.Overflows L v.line) (hover : L < (x.run m).2.sink.written.size)
      (hrun : x.run (m.limited L)
        = (.error (.error (.native ConsoleError.full.message paren.pos)), m'))
      (hlimit : m'.sink.limit = some L)
      (htaken : m'.sink.written.toList = (x.run m).2.sink.written.toList.take L) : Cut H L m x

variable {L : Nat}

/-- A computation that does not look at the sink does the same on both. -/
theorem Cut.of_same (hL : m.sink.written.size ≤ L) (hsink : (x.run m).2.sink = m.sink)
    (hrun : x.run (m.limited L) = ((x.run m).1, (x.run m).2.limited L)) : Cut H L m x :=
  .within (hsink ▸ hL) hrun

theorem print_cut {n : Nat} {v : Value} {rest : List Value} {paren : Token}
    (hcall : H ⟨n + 1, .apply (.native .print) (v :: rest) paren, m⟩) (hopen : m.sink.Open)
    (hL : m.sink.written.size ≤ L) : Cut H L m (Native.call .print (v :: rest) paren) := by
  have hprint := print_run v rest paren m
  have hlimited := print_run v rest paren (m.limited L)
  rw [hopen.write] at hprint
  by_cases hfits : m.sink.written.size + v.line.length ≤ L
  · rw [show (m.limited L).sink.write v.line = _ from hopen.write_fits hfits] at hlimited
    refine .within ?_ ?_
    · rw [hprint]
      show (m.sink.store v.line).written.size ≤ L
      rw [Sink.size_store]
      exact hfits
    · rw [hlimited, hprint]
      rfl
  · have hover : L < m.sink.written.size + v.line.length := Nat.lt_of_not_le hfits
    obtain ⟨hwrite, htake⟩ := hopen.write_over hL hover
    rw [show (m.limited L).sink.write v.line = _ from hwrite] at hlimited
    refine .cut hcall ⟨hL, hover⟩ ?_ hlimited rfl ?_
    · rw [hprint]
      show L < (m.sink.store v.line).written.size
      rw [Sink.size_store]
      exact hover
    · rw [hprint]
      show (m.sink.store _).written.toList = (m.sink.store v.line).written.toList.take L
      rw [Sink.written_store, Sink.written_store]
      exact htake

theorem nextLine_limited (L : Nat) (m : Machine) :
    (m.limited L).nextLine = (m.nextLine.1, m.nextLine.2.limited L) := by
  have hflush : (m.limited L).sink.flush = (m.sink.flush.1, m.sink.flush.2.limited L) :=
    Sink.flush_limited L m.sink
  unfold Machine.nextLine
  rw [hflush]
  cases m.sink.flush with
  | mk r sink =>
    cases r with
    | error e => rfl
    | ok _ =>
      dsimp only [Machine.limited]
      split
      · rfl
      · rfl
      · split <;> rfl

/-- **One computation after the other** is cut where the first is, or else where the second is. -/
theorem Cut.bind {β : Type} {f : α → Run β} (hx : Cut H L m x)
    (hlater : (x.run m).2.sink.Extends ((x >>= f).run m).2.sink)
    (hf : ∀ a m', x.run m = (.ok a, m') → m'.sink.written.size ≤ L → Cut H L m' (f a)) :
    Cut H L m (x >>= f) := by
  cases hrun : x.run m with
  | mk r m' =>
    cases hx with
    | cut hcall hline hover hfails hlimit htaken =>
      -- on the limited sink nothing follows, and on the other what follows comes behind
      refine .cut hcall hline (Nat.lt_of_lt_of_le hover hlater.size_le) (run_bind_error hfails) hlimit ?_
      rw [htaken, hlater.take_eq (Nat.le_of_lt hover)]
    | within hfits hsame =>
      rw [hrun] at hfits hsame
      cases r with
      | error e =>
        have hboth := run_bind_error (f := f) hrun
        refine .within ?_ ?_
        · rw [hboth]
          exact hfits
        · rw [hboth]
          exact run_bind_error hsame
      | ok a =>
        have hboth := run_bind_ok (f := f) hrun
        have hlimited := run_bind_ok (f := f) hsame
        cases hf a m' hrun hfits with
        | within hfits' hsame' =>
          refine .within ?_ ?_
          · rw [hboth]
            exact hfits'
          · rw [hboth]
            exact hlimited.trans hsame'
        | cut hcall hline hover hfails hlimit htaken =>
          refine .cut hcall hline ?_ (hlimited.trans hfails) hlimit ?_
          · rw [hboth]
            exact hover
          · rw [hboth]
            exact htaken

/-- **Every computation is cut** at the first line that does not fit. -/
theorem Consists.cut (h : Consists H m x) (hopen : m.sink.Open) (hL : m.sink.written.size ≤ L) :
    Cut H L m x := by
  induction h with
  | ends h =>
    refine .of_same hL ?_ ?_
    · rw [h]
    · rw [h, h]
  | @sees α m f hsink _ ih =>
    have hlimited : (get >>= f : Run α).run (m.limited L) = (f m).run (m.limited L) := by
      rw [← hsink (m.sink.limited L)]
      rfl
    cases ih hopen hL with
    | within hfits hrun => exact .within hfits (hlimited.trans hrun)
    | cut hcall hline hover hrun hlimit htaken =>
      exact .cut hcall hline hover (hlimited.trans hrun) hlimit htaken
  | @bind α β m x f hx hf ihx ihf =>
    have hextends := hx.extends
    have hlater : (x.run m).2.sink.Extends ((x >>= f).run m).2.sink := by
      cases hrun : x.run m with
      | mk r m' =>
        cases r with
        | error e =>
          rw [run_bind_error hrun]
          exact .refl _
        | ok a =>
          rw [run_bind_ok hrun]
          exact (hf a m' hrun).extends
    refine (ihx hopen hL).bind hlater fun a m' hrun hfits => ihf a m' hrun ?_ hfits
    rw [hrun] at hextends
    exact hextends.open hopen
  | frame | object | identity | field | rebinds | declares | clock | sleeps => exact .of_same hL rfl rfl
  | print hcall => exact print_cut hcall hopen hL
  | @read _ _ _ m _ =>
    refine .within ?_ ?_
    · rw [read_run, nextLine_sink, Sink.flush, hopen.refusals]
      show (m.sink.store []).written.size ≤ L
      rw [Sink.size_store]
      exact hL
    · rw [read_run, read_run, nextLine_limited]

end

end Lox
