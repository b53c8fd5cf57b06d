import Lox.Syntax.Parser

/-!
# What a step of the parser reads

How to say, and to prove part by part, what the parser takes from the tokens ahead.

* `Advances k s s'`: the parse went from the cursor `s` to `s'` over at least `k` tokens, and its
  complaints and the numbers it gave to references were kept.
* `ReadsAt n r k p L s`: from `s` on, `p` takes at least `k` tokens when it succeeds, and without a
  complaint only tokens of the language `L`; where it starves, its fuel `n` was no more than
  `need s.ahead r`.
* `Reads n r k p L`: the same from every cursor with an end token behind it.

The lemmas of section 3 take a parse apart: one for each step of `Lox.Syntax.Cursor`, and
`ReadsAt.bind` for a rule followed by the rest.
-/

namespace Lox.Syntax

/-! ## 1. Running a parse -/

section Run

variable {α β : Type}

theorem run_pure (x : α) (s : Cursor) : (pure x : Parse α).run s = (.ok x, s) := rfl

theorem run_bind (p : Parse α) (f : α → Parse β) (s : Cursor) :
    (p >>= f).run s =
      match p.run s with
      | (.ok x, s') => (f x).run s'
      | (.error e, s') => (.error e, s') := by
  show (ExceptT.bindCont f =<< p.run) s = _
  show (ExceptT.bindCont f (p.run s).1) (p.run s).2 = _
  rcases p.run s with ⟨x | x, s'⟩ <;> rfl

/-- The token in front of a cursor. -/
def Cursor.front (s : Cursor) : Token := s.ahead.head?.getD s.eof

/-- What recovery makes of an outcome. -/
def recovered : Except Failure α × Cursor → Except Failure (Option α) × Cursor
  | (.ok x, s) => (.ok (some x), s)
  | (.error (.error e), s) =>
    (.ok none, { s with ahead := resume s.ahead, errors := s.errors ++ [e] })
  | (.error .starved, s) => (.error .starved, s)

theorem run_recovering (p : Parse α) (s : Cursor) :
    (recovering p).run s = recovered (p.run s) := by
  show recovering p s = _
  unfold recovering
  rcases p.run s with ⟨(e | _) | x, s'⟩ <;> rfl

end Run

/-! ## 2. Languages and progress -/

/-- Which tokens a phrase is made of and which tree it is; the numbers are the next free reference
    before and behind it. -/
abbrev Language (α : Type) := Nat → List Token → α → Nat → Prop

/-- Fuel that suffices for `r` calls in front of the next token, and as many at each token as the
    rules can need. -/
def need (tokens : List Token) (r : Nat) : Nat := 32 * tokens.length + r

/-- A parse went over at least `k` tokens and took back no complaint and no number. -/
structure Advances (k : Nat) (s s' : Cursor) : Prop where
  eof : s'.eof = s.eof
  errors : s.errors <+: s'.errors
  nextId : s.nextId ≤ s'.nextId
  ahead : ∃ taken, s.ahead = taken ++ s'.ahead ∧ k ≤ taken.length

theorem Advances.refl (s : Cursor) : Advances 0 s s :=
  ⟨rfl, List.prefix_rfl, Nat.le_refl _, [], rfl, Nat.zero_le _⟩

theorem Advances.trans {j k l : Nat} {s t u : Cursor} (h : Advances j s t) (h' : Advances k t u)
    (hl : l ≤ j + k) : Advances l s u := by
  obtain ⟨ts, e, hj⟩ := h.ahead
  obtain ⟨us, e', hk⟩ := h'.ahead
  refine ⟨h'.eof.trans h.eof, h.errors.trans h'.errors, Nat.le_trans h.nextId h'.nextId,
    ts ++ us, ?_, ?_⟩
  · rw [e, e', List.append_assoc]
  · rw [List.length_append]
    omega

theorem Advances.weaken {k l : Nat} {s t : Cursor} (h : Advances k s t) (hl : l ≤ k) :
    Advances l s t := h.trans (.refl t) (by omega)

theorem Advances.ended {k : Nat} {s t : Cursor} (h : Advances k s t) (he : s.eof.kind = .eof) :
    t.eof.kind = .eof := by rw [h.eof, he]

theorem Advances.length {k : Nat} {s t : Cursor} (h : Advances k s t) :
    t.ahead.length + k ≤ s.ahead.length := by
  obtain ⟨ts, e, hk⟩ := h.ahead
  rw [e, List.length_append]
  omega

/-- An outcome of a parse from the cursor `s` on. -/
def Outcome {α : Type} (n r k : Nat) (L : Language α) (s : Cursor) :
    Except Failure α × Cursor → Prop
  | (.ok x, s') => Advances k s s' ∧
      (s'.errors = s.errors → ∃ ts, s.ahead = ts ++ s'.ahead ∧ L s.nextId ts x s'.nextId)
  | (.error (.error _), s') => Advances 0 s s'
  | (.error .starved, _) => n ≤ need s.ahead r

/-- What a parse comes to from the cursor `s` on. -/
def ReadsAt {α : Type} (n r k : Nat) (p : Parse α) (L : Language α) (s : Cursor) : Prop :=
  Outcome n r k L s (p.run s)

/-- What a parse comes to from any cursor on that has an end behind it. -/
def Reads {α : Type} (n r k : Nat) (p : Parse α) (L : Language α) : Prop :=
  ∀ s, s.eof.kind = .eof → ReadsAt n r k p L s

section Logic

variable {α β : Type} {n r k : Nat} {p : Parse α} {L M : Language α} {s : Cursor}

protected theorem ReadsAt.mono (h : ReadsAt n r k p L s) (hL : ∀ a ts x b, L a ts x b → M a ts x b) :
    ReadsAt n r k p M s := by
  unfold ReadsAt at h ⊢
  generalize p.run s = o at h ⊢
  rcases o with ⟨(e | _) | x, s'⟩
  · exact h
  · exact h
  · exact ⟨h.1, fun he => (h.2 he).imp fun ts ⟨e, hts⟩ => ⟨e, hL _ _ _ _ hts⟩⟩

protected theorem ReadsAt.weaken {j : Nat} (h : ReadsAt n r k p L s) (hj : j ≤ k) :
    ReadsAt n r j p L s := by
  unfold ReadsAt at h ⊢
  generalize p.run s = o at h ⊢
  rcases o with ⟨(e | _) | x, s'⟩
  · exact h
  · exact h
  · exact ⟨h.1.weaken hj, h.2⟩

protected theorem ReadsAt.costlier {q : Nat} (h : ReadsAt n r k p L s) (hq : r ≤ q) :
    ReadsAt n q k p L s := by
  unfold ReadsAt at h ⊢
  generalize p.run s = o at h ⊢
  rcases o with ⟨(e | _) | x, s'⟩
  · exact h
  · unfold Outcome need at h ⊢
    omega
  · exact h

/-- One more unit of fuel pays for one more call. -/
protected theorem ReadsAt.call {q : Nat} (h : ReadsAt n r k p L s) (hq : r + 1 ≤ q) :
    ReadsAt (n + 1) q k p L s := by
  unfold ReadsAt at h ⊢
  generalize p.run s = o at h ⊢
  rcases o with ⟨(e | _) | x, s'⟩
  · exact h
  · unfold Outcome need at h ⊢
    omega
  · exact h

protected theorem ReadsAt.pure (x : α) : ReadsAt n r 0 (pure x) (fun a ts y b => ts = [] ∧ y = x ∧ b = a) s :=
  ⟨.refl s, fun _ => ⟨[], rfl, rfl, rfl, rfl⟩⟩

protected theorem Reads.call {q : Nat} (h : Reads n r k p L) (hq : r + 1 ≤ q) :
    Reads (n + 1) q k p L := fun s he => (h s he).call hq

/-- **A rule, then the rest.** The rest may be read more expensively where the rule took a token. -/
protected theorem ReadsAt.bind {j l : Nat} {f : α → Parse β} {N : α → Language β}
    (he : s.eof.kind = .eof) (h : ReadsAt n r k p L s)
    (hf : ∀ x, Reads n (r + 32 * k) j (f x) (N x)) (hl : l ≤ k + j) :
    ReadsAt n r l (p >>= f)
      (fun a ts y b => ∃ us x c vs, L a us x c ∧ N x c vs y b ∧ ts = us ++ vs) s := by
  unfold ReadsAt at h ⊢
  rw [run_bind]
  rcases hp : p.run s with ⟨(e | _) | x, s'⟩ <;> rw [hp] at h
  · exact h
  · unfold Outcome need at h ⊢
    omega
  · obtain ⟨hadv, hok⟩ := h
    have hrest := hf x s' (hadv.ended he)
    unfold ReadsAt at hrest
    show Outcome n r l _ s ((f x).run s')
    generalize (f x).run s' = o at hrest ⊢
    rcases o with ⟨(e | _) | y, s''⟩
    · exact hadv.trans hrest (Nat.zero_le _)
    · have := hadv.length
      unfold Outcome need at hrest ⊢
      omega
    · obtain ⟨hadv', hok'⟩ := hrest
      refine ⟨hadv.trans hadv' hl, fun he => ?_⟩
      -- complaints are never taken back, so without one at the end there was none in between
      have hmid : s'.errors = s.errors :=
        List.IsPrefix.eq_of_length_le (he ▸ hadv'.errors) hadv.errors.length_le
      obtain ⟨us, eu, hus⟩ := hok hmid
      obtain ⟨vs, ev, hvs⟩ := hok' (he.trans hmid.symm)
      exact ⟨us ++ vs, by rw [eu, ev, List.append_assoc], us, x, s'.nextId, vs, hus, hvs, rfl⟩

end Logic

/-! ## 3. The steps of the cursor -/

section Steps

variable {α : Type} {n r k : Nat} {L M : Language α} {s : Cursor}

theorem run_acceptIf_nil (q : Token.Kind → Bool) (h : s.ahead = []) :
    (acceptIf q).run s = (.ok none, s) := by
  obtain ⟨ahead, eof, nextId, errors⟩ := s
  obtain rfl : ahead = [] := h
  rfl

theorem run_acceptIf_cons (q : Token.Kind → Bool) {t : Token} {ts : List Token}
    (h : s.ahead = t :: ts) :
    (acceptIf q).run s =
      if q t.kind then (.ok (some t), { s with ahead := ts }) else (.ok none, s) := by
  obtain ⟨ahead, eof, nextId, errors⟩ := s
  obtain rfl : ahead = t :: ts := h
  exact apply_ite (fun p : Parse (Option Token) => p.run _) _ _ _

/-- A cursor moved over its first token. -/
theorem advances_tail {t : Token} {ts : List Token} (h : s.ahead = t :: ts) :
    Advances 1 s { s with ahead := ts } :=
  ⟨rfl, List.prefix_rfl, Nat.le_refl _, [t], h, Nat.le_refl 1⟩

/-- **The token in front, taken.** The rest may cost more. -/
protected theorem ReadsAt.accepted {q : Token.Kind → Bool} {t : Token} {ts : List Token}
    {f : Option Token → Parse α} (he : s.eof.kind = .eof) (hs : s.ahead = t :: ts)
    (hq : q t.kind = true) (h : Reads n (r + 32) k (f (some t)) L) :
    ReadsAt n r (k + 1) (Syntax.acceptIf q >>= f)
      (fun a us x b => ∃ vs, L a vs x b ∧ us = t :: vs) s := by
  unfold ReadsAt
  rw [run_bind, run_acceptIf_cons q hs, if_pos hq]
  have h := h { s with ahead := ts } he
  have hadv := advances_tail hs
  unfold ReadsAt at h
  dsimp only
  generalize (f (some t)).run { s with ahead := ts } = o at h ⊢
  rcases o with ⟨(e | _) | x, s'⟩
  · exact hadv.trans h (Nat.zero_le _)
  · unfold Outcome need at h ⊢
    rw [hs, List.length_cons]
    dsimp only at h
    omega
  · refine ⟨hadv.trans h.1 (by omega), fun he => ?_⟩
    obtain ⟨us, eu, hus⟩ := h.2 he
    exact ⟨t :: us, by rw [hs]; exact congrArg _ eu, us, hus, rfl⟩

/-- **A token that may be missing.** Where it is there, the rest may cost more and need not take
    any. -/
protected theorem ReadsAt.acceptIf {j : Nat} {q : Token.Kind → Bool} {f : Option Token → Parse α}
    {N : Token → Language α} (he : s.eof.kind = .eof) (hnone : ReadsAt n r k (f none) L s)
    (hsome : ∀ t, q t.kind = true → Reads n (r + 32) j (f (some t)) (N t)) (hj : k ≤ j + 1) :
    ReadsAt n r k (acceptIf q >>= f)
      (fun a ts x b => L a ts x b ∨ ∃ t us, q t.kind = true ∧ N t a us x b ∧ ts = t :: us) s := by
  by_cases h : ∃ t ts, s.ahead = t :: ts ∧ q t.kind = true
  · obtain ⟨t, ts, hs, hq⟩ := h
    refine ((ReadsAt.accepted he hs hq (hsome t hq)).mono ?_).weaken hj
    intro a us x b hread
    obtain ⟨vs, hx, rfl⟩ := hread
    exact .inr ⟨t, vs, hq, hx, rfl⟩
  · have hrun : (Syntax.acceptIf q).run s = (.ok none, s) := by
      rcases hs : s.ahead with _ | ⟨t, ts⟩
      · exact run_acceptIf_nil q hs
      · rw [run_acceptIf_cons q hs, if_neg fun hq => h ⟨t, ts, hs, hq⟩]
    unfold ReadsAt
    rw [run_bind, hrun]
    exact hnone.mono fun _ _ _ _ h => .inl h

theorem run_fail (c : Complaint) :
    ∃ e, (fail c : Parse α).run s = (.error (.error e), s) := ⟨_, rfl⟩

protected theorem ReadsAt.fail (c : Complaint) : ReadsAt n r k (Syntax.fail c : Parse α) L s := by
  obtain ⟨e, h⟩ := run_fail (α := α) (s := s) c
  unfold ReadsAt
  rw [h]
  exact .refl s

/-- **A token that must be there.** -/
protected theorem ReadsAt.expect {kd : Token.Kind} {c : Complaint} {f : Token → Parse α}
    {N : Token → Language α} (he : s.eof.kind = .eof)
    (h : ∀ t, t.kind = kd → Reads n (r + 32) k (f t) (N t)) :
    ReadsAt n r (k + 1) (expect kd c >>= f)
      (fun a ts x b => ∃ t us, t.kind = kd ∧ N t a us x b ∧ ts = t :: us) s := by
  rw [Syntax.expect, Syntax.accept, bind_assoc]
  refine ReadsAt.mono (.acceptIf (L := fun _ _ _ _ => False) (N := N) he ?_ (fun t ht => ?_) (Nat.le_refl _)) ?_
  · obtain ⟨e, he⟩ := run_fail (α := Token) (s := s) c
    unfold ReadsAt
    dsimp only
    rw [run_bind, he]
    exact .refl s
  · dsimp only
    rw [pure_bind]
    exact h t (by simpa using ht)
  · intro a ts x b hread
    rcases hread with h | ⟨t, us, ht, hn, rfl⟩
    · exact h.elim
    · exact ⟨t, us, by simpa using ht, hn, rfl⟩

/-- **A complaint** leaves nothing to be said about the language. -/
protected theorem ReadsAt.report {c : Complaint} {t : Token} {f : Unit → Parse α}
    (he : s.eof.kind = .eof) (h : Reads n r k (f ()) L) : ReadsAt n r k (report c t >>= f) M s := by
  unfold ReadsAt
  rw [run_bind]
  have h := h { s with errors := s.errors ++ [⟨c, t⟩] } he
  have hadv : Advances 0 s { s with errors := s.errors ++ [⟨c, t⟩] } :=
    ⟨rfl, List.prefix_append _ _, Nat.le_refl _, [], rfl, Nat.le_refl 0⟩
  unfold ReadsAt at h
  show Outcome n r k _ s ((f ()).run { s with errors := s.errors ++ [⟨c, t⟩] })
  generalize (f ()).run { s with errors := s.errors ++ [⟨c, t⟩] } = o at h ⊢
  rcases o with ⟨(e | _) | x, s'⟩
  · exact hadv.trans h (Nat.zero_le _)
  · exact h
  · refine ⟨hadv.trans h.1 (by omega), fun he => absurd (he ▸ h.1.errors.length_le) ?_⟩
    simp

protected theorem ReadsAt.peek {f : Token → Parse α} (h : ReadsAt n r k (f (s.ahead.head?.getD s.eof)) L s) :
    ReadsAt n r k (Syntax.peek >>= f) L s := h

protected theorem ReadsAt.check {kd : Token.Kind} {f : Bool → Parse α}
    (h : ReadsAt n r k (f (s.ahead.head?.any (·.kind = kd))) L s) :
    ReadsAt n r k (Syntax.check kd >>= f) L s := h

protected theorem ReadsAt.checkSecond {kd : Token.Kind} {f : Bool → Parse α}
    (h : ReadsAt n r k (f (s.ahead[1]?.any (·.kind = kd))) L s) :
    ReadsAt n r k (Syntax.checkSecond kd >>= f) L s := h

protected theorem ReadsAt.atEnd {f : Bool → Parse α} (h : ReadsAt n r k (f s.ahead.isEmpty) L s) :
    ReadsAt n r k (Syntax.atEnd >>= f) L s := h

/-- **A reference** takes the next free number and no token. -/
protected theorem ReadsAt.refer {t : Token} {f : Reference → Parse α} {N : Reference → Language α}
    (he : s.eof.kind = .eof) (h : ∀ ref, Reads n r k (f ref) (N ref)) :
    ReadsAt n r k (refer t >>= f) (fun a ts x b => N ⟨⟨a⟩, t⟩ (a + 1) ts x b) s := by
  have h := h ⟨⟨s.nextId⟩, t⟩ { s with nextId := s.nextId + 1 } he
  unfold ReadsAt at h ⊢
  show Outcome n r k _ s ((f ⟨⟨s.nextId⟩, t⟩).run { s with nextId := s.nextId + 1 })
  generalize (f ⟨⟨s.nextId⟩, t⟩).run { s with nextId := s.nextId + 1 } = o at h ⊢
  rcases o with ⟨(e | _) | x, s'⟩
  · exact ⟨h.eof, h.errors, Nat.le_of_succ_le h.nextId, h.ahead⟩
  · exact h
  · exact ⟨⟨h.1.eof, h.1.errors, Nat.le_of_succ_le h.1.nextId, h.1.ahead⟩, h.2⟩

/-- A reference at the end of a rule. -/
theorem readsAt_refer (t : Token) (he : s.eof.kind = .eof) :
    ReadsAt n r 0 (refer t) (fun a ts x b => ts = [] ∧ x = ⟨⟨a⟩, t⟩ ∧ b = a + 1) s := by
  rw [← bind_pure (Syntax.refer t)]
  exact ReadsAt.refer he fun ref s _ => ReadsAt.pure ref

protected theorem ReadsAt.skip {t : Token} {ts : List Token} {f : Unit → Parse α}
    (he : s.eof.kind = .eof) (hs : s.ahead = t :: ts)
    (h : Reads n (r + 32) k (f ()) L) :
    ReadsAt n r (k + 1) (skip >>= f) (fun a us x b => ∃ vs, L a vs x b ∧ us = t :: vs) s := by
  have hskip : (Syntax.skip >>= f) = (Syntax.acceptIf (fun _ => true) >>= fun _ => f ()) := by
    show ((fun _ => ()) <$> Syntax.acceptIf fun _ => true) >>= f = _
    rw [← bind_pure_comp, bind_assoc]
    simp only [pure_bind]
  rw [hskip]
  exact ReadsAt.accepted he hs rfl h

protected theorem ReadsAt.map {β : Type} {p : Parse α} (g : α → β) (he : s.eof.kind = .eof)
    (h : ReadsAt n r k p L s) :
    ReadsAt n r k (g <$> p) (fun a ts y b => ∃ x, y = g x ∧ L a ts x b) s := by
  rw [← bind_pure_comp]
  refine ReadsAt.mono (ReadsAt.bind he h (fun x _ _ => ReadsAt.pure (g x)) (Nat.le_refl _)) ?_
  intro a ts y b hread
  obtain ⟨us, x, c, vs, hx, ⟨rfl, rfl, rfl⟩, rfl⟩ := hread
  exact ⟨x, rfl, by rwa [List.append_nil]⟩

/-- A part that may be missing in front of a token. -/
protected theorem ReadsAt.before {kd : Token.Kind} {p : Parse α} (he : s.eof.kind = .eof)
    (h : ReadsAt n r k p L s) :
    ReadsAt n r 0 (before kd p)
      (fun a ts o b => (o = none ∧ ts = [] ∧ b = a) ∨ ∃ x, o = some x ∧ L a ts x b) s := by
  unfold Syntax.before
  refine ReadsAt.check ?_
  split
  · exact (ReadsAt.pure none).mono fun a ts o b ⟨hts, ho, hb⟩ => .inl ⟨ho, hts, hb⟩
  · refine ((ReadsAt.map some he h).mono fun a ts o b h => .inr h).weaken (Nat.zero_le _)

/-- A part that follows a token, if that token is in front. -/
protected theorem ReadsAt.behind {kd : Token.Kind} {p : Parse α} (he : s.eof.kind = .eof)
    (h : Reads n (r + 32) k p L) :
    ReadsAt n r 0 (behind kd p) (fun a ts o b => (o = none ∧ ts = [] ∧ b = a) ∨
      ∃ t us x, t.kind = kd ∧ o = some x ∧ L a us x b ∧ ts = t :: us) s := by
  unfold Syntax.behind
  refine ReadsAt.mono (ReadsAt.acceptIf he (ReadsAt.pure none)
    (fun t _ s he => ReadsAt.map some he (h s he)) (Nat.zero_le _)) ?_
  intro a ts o b hread
  rcases hread with ⟨rfl, rfl, rfl⟩ | ⟨t, us, ht, ⟨x, rfl, hx⟩, rfl⟩
  · exact .inl ⟨rfl, rfl, rfl⟩
  · exact .inr ⟨t, us, x, of_decide_eq_true ht, rfl, hx, rfl⟩

/-- A limit that is kept is no complaint. -/
protected theorem ReadsAt.limit {c : Complaint} {count : Nat} {f : Unit → Parse α}
    (he : s.eof.kind = .eof) (h : Reads n r k (f ()) L) :
    ReadsAt n r k (limit c count >>= f) (fun a ts x b => count ≤ maxArguments ∧ L a ts x b) s := by
  unfold Syntax.limit
  split
  · rw [bind_assoc]
    exact ReadsAt.peek (ReadsAt.report he h)
  · rename_i hc
    rw [pure_bind]
    exact (h s he).mono fun a ts x b hx => ⟨Nat.le_of_not_lt hc, hx⟩

end Steps

end Lox.Syntax
