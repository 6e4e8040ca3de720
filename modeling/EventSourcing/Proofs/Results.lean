/-!
# Results — taking computations with faults apart

Where a computation gives a value, so did each of its steps; where it ends with an error, one of its
steps did.
-/

namespace EventSourcing

variable {ε α β : Type}

/-- A value comes from a value of the first step. -/
theorem bind_eq_ok {x : Except ε α} {f : α → Except ε β} {b : β} :
    x >>= f = .ok b ↔ ∃ a, x = .ok a ∧ f a = .ok b := by
  constructor
  · intro h
    cases x with
    | error e => cases h
    | ok a => exact ⟨a, rfl, h⟩
  · intro ⟨a, hx, hf⟩
    rw [hx]
    exact hf

theorem map_eq_ok {x : Except ε α} {f : α → β} {b : β} :
    x.map f = .ok b ↔ ∃ a, x = .ok a ∧ f a = b := by
  constructor
  · intro h
    cases x with
    | error e => cases h
    | ok a => exact ⟨a, rfl, Except.ok.inj h⟩
  · intro ⟨a, hx, hf⟩
    rw [hx, ← hf]
    rfl

theorem map_eq_error {x : Except ε α} {f : α → β} {e : ε} : x.map f = .error e ↔ x = .error e := by
  constructor
  · intro h
    cases x with
    | error e' => cases h; rfl
    | ok a => cases h
  · intro h
    rw [h]
    rfl

/-- An error is that of the first step, or of the second after a value of the first. -/
theorem bind_eq_error {x : Except ε α} {f : α → Except ε β} {e : ε} :
    x >>= f = .error e ↔ x = .error e ∨ ∃ a, x = .ok a ∧ f a = .error e := by
  constructor
  · intro h
    cases x with
    | error e' => cases h; exact .inl rfl
    | ok a => exact .inr ⟨a, rfl, h⟩
  · intro h
    rcases h with hx | ⟨a, hx, hf⟩
    · rw [hx]; rfl
    · rw [hx]; exact hf

/-- What gets past a guard goes on as if there were none. -/
theorem guard_eq_ok {c : Prop} [Decidable c] {e : ε} {f : Unit → Except ε β} {b : β} :
    (if c then (Except.error e : Except ε Unit) >>= f else f ()) = .ok b ↔ ¬ c ∧ f () = .ok b := by
  by_cases hc : c
  · rw [if_pos hc]
    exact ⟨fun h => (by cases h), fun h => absurd hc h.1⟩
  · rw [if_neg hc]
    exact (and_iff_right hc).symm

theorem mapError_eq_ok {ε' : Type} {x : Except ε α} {f : ε → ε'} {a : α} :
    x.mapError f = .ok a ↔ x = .ok a := by
  constructor
  · intro h
    cases x with
    | error e => cases h
    | ok a' => cases h; rfl
  · intro h
    rw [h]
    rfl

theorem mapError_eq_error {ε' : Type} {x : Except ε α} {f : ε → ε'} {e' : ε'} :
    x.mapError f = .error e' ↔ ∃ e, x = .error e ∧ f e = e' := by
  constructor
  · intro h
    cases x with
    | error e => exact ⟨e, rfl, Except.error.inj h⟩
    | ok a => cases h
  · rintro ⟨e, hx, hf⟩
    rw [hx, ← hf]
    rfl

/-! ### Lists -/

theorem mapM_cons_eq_ok_iff {f : α → Except ε β} {a : α} {l : List α} {bs : List β} :
    (a :: l).mapM f = .ok bs ↔ ∃ b bs', f a = .ok b ∧ l.mapM f = .ok bs' ∧ bs = b :: bs' := by
  rw [List.mapM_cons, bind_eq_ok]
  constructor
  · rintro ⟨b, hb, h⟩
    obtain ⟨bs', hbs, h⟩ := bind_eq_ok.mp h
    exact ⟨b, bs', hb, hbs, (Except.ok.inj h).symm⟩
  · rintro ⟨b, bs', hb, hbs, rfl⟩
    exact ⟨b, hb, bind_eq_ok.mpr ⟨bs', hbs, rfl⟩⟩

theorem mapM_cons_eq_error_iff {f : α → Except ε β} {a : α} {l : List α} {e : ε} :
    (a :: l).mapM f = .error e ↔ f a = .error e ∨ ∃ b, f a = .ok b ∧ l.mapM f = .error e := by
  rw [List.mapM_cons, bind_eq_error]
  refine or_congr_right (exists_congr fun b => and_congr_right fun _ => bind_eq_error.trans ?_)
  constructor
  · rintro (h | ⟨bs, -, h⟩)
    · exact h
    · cases h
  · exact .inl

/-- A list is gone through to its end exactly if none of its members is refused. -/
theorem exists_mapM_eq_ok_iff {f : α → Except ε β} {l : List α} :
    (∃ bs, l.mapM f = .ok bs) ↔ ∀ a ∈ l, ∃ b, f a = .ok b := by
  induction l with
  | nil => exact ⟨fun _ _ h => absurd h List.not_mem_nil, fun _ => ⟨[], rfl⟩⟩
  | cons a l ih =>
      rw [List.forall_mem_cons, ← ih]
      constructor
      · rintro ⟨bs, h⟩
        obtain ⟨b, bs', hb, hbs, -⟩ := mapM_cons_eq_ok_iff.mp h
        exact ⟨⟨b, hb⟩, bs', hbs⟩
      · rintro ⟨⟨b, hb⟩, bs, hbs⟩
        exact ⟨b :: bs, mapM_cons_eq_ok_iff.mpr ⟨b, bs, hb, hbs, rfl⟩⟩

/-- Each element gives one value. -/
theorem length_of_mapM_eq_ok {f : α → Except ε β} {l : List α} {bs : List β}
    (h : l.mapM f = .ok bs) : bs.length = l.length := by
  induction l generalizing bs with
  | nil => cases h; rfl
  | cons a l ih =>
      obtain ⟨b, bs', -, hbs, rfl⟩ := mapM_cons_eq_ok_iff.mp h
      rw [List.length_cons, List.length_cons, ih hbs]

/-- A longer list gives a longer result. -/
theorem prefix_of_mapM_eq_ok {f : α → Except ε β} {l l' : List α} {bs bs' : List β} (hl : l <+: l')
    (h : l.mapM f = .ok bs) (h' : l'.mapM f = .ok bs') : bs <+: bs' := by
  obtain ⟨later, rfl⟩ := hl
  rw [List.mapM_append, h] at h'
  obtain ⟨_, hbs, h'⟩ := bind_eq_ok.mp h'
  cases hbs
  obtain ⟨bs'', -, h'⟩ := bind_eq_ok.mp h'
  cases h'
  exact List.prefix_append bs bs''

/-- What ends the way through a list is the error of its first member that is refused. -/
theorem mapM_eq_error_iff {f : α → Except ε β} {l : List α} {e : ε} :
    l.mapM f = .error e ↔ ∃ before a after, l = before ++ a :: after ∧
      (∀ a' ∈ before, ∃ b, f a' = .ok b) ∧ f a = .error e := by
  induction l with
  | nil =>
      constructor
      · intro h
        cases h
      · rintro ⟨before, a, after, h, -⟩
        cases before <;> cases h
  | cons x l ih =>
      rw [mapM_cons_eq_error_iff, ih]
      constructor
      · rintro (hx | ⟨b, hb, before, a, after, rfl, hbefore, ha⟩)
        · exact ⟨[], x, l, rfl, fun _ h => absurd h List.not_mem_nil, hx⟩
        · exact ⟨x :: before, a, after, rfl, List.forall_mem_cons.mpr ⟨⟨b, hb⟩, hbefore⟩, ha⟩
      · rintro ⟨before, a, after, hl, hbefore, ha⟩
        cases before with
        | nil => cases hl; exact .inl ha
        | cons x' before =>
            cases hl
            obtain ⟨⟨b, hb⟩, hbefore⟩ := List.forall_mem_cons.mp hbefore
            exact .inr ⟨b, hb, before, a, after, rfl, hbefore, ha⟩

/-- An error is that of some element. -/
theorem exists_of_mapM_eq_error {f : α → Except ε β} {l : List α} {e : ε}
    (h : l.mapM f = .error e) : ∃ a ∈ l, f a = .error e := by
  obtain ⟨before, a, after, rfl, -, ha⟩ := mapM_eq_error_iff.mp h
  exact ⟨a, List.mem_append_right before List.mem_cons_self, ha⟩

/-- What is made of each member is made of the list. -/
theorem mapM_eq_ok_of_forall {f : α → Except ε β} {g : α → β} {l : List α}
    (h : ∀ a ∈ l, f a = .ok (g a)) : l.mapM f = .ok (l.map g) := by
  induction l with
  | nil => rfl
  | cons a l ih =>
      obtain ⟨ha, hl⟩ := List.forall_mem_cons.mp h
      exact mapM_cons_eq_ok_iff.mpr ⟨_, _, ha, ih hl, rfl⟩

/-- Tests that all succeed succeed together. -/
theorem forM_eq_ok_of_forall {f : α → Except ε Unit} {l : List α} (h : ∀ a ∈ l, f a = .ok ()) :
    l.forM f = .ok () := by
  induction l with
  | nil => rfl
  | cons a l ih =>
      obtain ⟨ha, hl⟩ := List.forall_mem_cons.mp h
      exact bind_eq_ok.mpr ⟨(), ha, ih hl⟩

/-- Values that can be put back into what they were taken from make up the list again. -/
theorem map_of_mapM_eq_ok {f : α → Except ε β} {g : β → α} {l : List α} {bs : List β}
    (h : l.mapM f = .ok bs) (hg : ∀ a ∈ l, ∀ b, f a = .ok b → g b = a) : bs.map g = l := by
  induction l generalizing bs with
  | nil => cases h; rfl
  | cons a l ih =>
      obtain ⟨ha, hl⟩ := List.forall_mem_cons.mp hg
      obtain ⟨b, bs', hb, hbs, rfl⟩ := mapM_cons_eq_ok_iff.mp h
      rw [List.map_cons, ha b hb, ih hbs hl]

/-- A list in another order gives what the list gives, in another order. -/
theorem exists_mapM_of_perm {f : α → Except ε β} {l l' : List α} {bs : List β} (hp : l'.Perm l)
    (h : l.mapM f = .ok bs) : ∃ bs', l'.mapM f = .ok bs' ∧ bs'.Perm bs := by
  induction hp generalizing bs with
  | nil => exact ⟨bs, h, .refl bs⟩
  | cons a _ ih =>
      obtain ⟨b, bs, hb, hbs, rfl⟩ := mapM_cons_eq_ok_iff.mp h
      obtain ⟨bs', hbs', hperm⟩ := ih hbs
      exact ⟨b :: bs', mapM_cons_eq_ok_iff.mpr ⟨b, bs', hb, hbs', rfl⟩, hperm.cons b⟩
  | swap a a' l =>
      obtain ⟨b, _, hb, hrest, rfl⟩ := mapM_cons_eq_ok_iff.mp h
      obtain ⟨b', bs, hb', hbs, rfl⟩ := mapM_cons_eq_ok_iff.mp hrest
      exact ⟨b' :: b :: bs, mapM_cons_eq_ok_iff.mpr ⟨b', _, hb',
        mapM_cons_eq_ok_iff.mpr ⟨b, bs, hb, hbs, rfl⟩, rfl⟩, .swap b b' bs⟩
  | trans _ _ ih₁ ih₂ =>
      obtain ⟨bs₂, h₂, hp₂⟩ := ih₂ h
      obtain ⟨bs₁, h₁, hp₁⟩ := ih₁ h₂
      exact ⟨bs₁, h₁, hp₁.trans hp₂⟩

/-- A list that was made from values is taken apart into these values. -/
theorem mapM_map_ok {f : β → Except ε α} {g : α → β} (h : ∀ a, f (g a) = .ok a) (l : List α) :
    (l.map g).mapM f = .ok l := by
  induction l with
  | nil => rfl
  | cons a l ih => rw [List.map_cons, List.mapM_cons, h, ih]; rfl

end EventSourcing
