import Covenant.Outcome

/-! Computations that work on a state and may end early, with their rules of pre- and
postconditions. The state stays changed whichever way a computation ends, so a triple has
a postcondition for each. -/

namespace Outcome

/-- A computation on `S`, which it leaves changed also when it ends early. -/
def Cmd (S α : Type) : Type := S → Go α × S

namespace Cmd

variable {S T α β : Type}

def bind (x : Cmd S α) (f : α → Cmd S β) : Cmd S β := fun s =>
  match x s with
  | (.ok a, s) => f a s
  | (.error e, s) => (.error e, s)

instance : Monad (Cmd S) where
  pure a := fun s => (.ok a, s)
  bind := bind

/-- A computation that does not look at the state. -/
def lift (x : Go α) : Cmd S α := fun s => (x, s)

def read (f : S → α) : Cmd S α := fun s => (.ok (f s), s)

def modify (f : S → S) : Cmd S Unit := fun s => (.ok (), f s)

/-- A computation on a part of the state. -/
def on (get : S → T) (put : T → S → S) (x : Cmd T α) : Cmd S α := fun s =>
  ((x (get s)).1, put (x (get s)).2 s)

/-- `if err != nil { return fmt.Errorf("msg: %w", err) }` after the computation. -/
def wrap (msg : String) (x : Cmd S α) : Cmd S α := fun s => (wrapError msg (x s).1, (x s).2)

/-! ## Successful runs -/

theorem bind_ok_iff {x : Cmd S α} {f : α → Cmd S β} {s s' : S} {b : β} :
    (x >>= f) s = (.ok b, s') ↔ ∃ a s₁, x s = (.ok a, s₁) ∧ f a s₁ = (.ok b, s') := by
  change bind x f s = _ ↔ _
  unfold bind
  rcases x s with ⟨e | a, s₁⟩
  · simp
  · simp

theorem lift_ok_iff {x : Go α} {s s' : S} {a : α} :
    lift x s = (.ok a, s') ↔ x = .ok a ∧ s' = s := by
  unfold lift
  simp [eq_comm]

theorem read_ok_iff {f : S → α} {s s' : S} {a : α} :
    read f s = (.ok a, s') ↔ f s = a ∧ s' = s := by
  unfold read
  simp [eq_comm]

theorem on_ok_iff {get : S → T} {put : T → S → S} {x : Cmd T α} {s s' : S} {a : α} :
    on get put x s = (.ok a, s') ↔ ∃ t, x (get s) = (.ok a, t) ∧ s' = put t s := by
  unfold on
  rcases x (get s) with ⟨r, t⟩
  simp [eq_comm]

theorem wrap_ok_iff {msg : String} {x : Cmd S α} {s s' : S} {a : α} :
    wrap msg x s = (.ok a, s') ↔ x s = (.ok a, s') := by
  unfold wrap
  rcases x s with ⟨r, s₁⟩
  simp

/-! ## Triples -/

/-- From a state with `P` the computation ends with a value and `Q`, or early and with `E`. -/
def Triple (P : S → Prop) (x : Cmd S α) (Q : α → S → Prop) (E : S → Prop) : Prop :=
  ∀ s, P s → (∀ a s', x s = (.ok a, s') → Q a s') ∧ ∀ e s', x s = (.error e, s') → E s'

variable {P : S → Prop} {E : S → Prop}

/-- A triple that says the same of both ends. -/
theorem Triple.after {x : Cmd S α} (h : Triple P x (fun _ => E) E) {s : S} (hs : P s) : E (x s).2 := by
  obtain ⟨hok, herr⟩ := h s hs
  rcases hx : x s with ⟨e | a, s'⟩
  · exact herr e s' hx
  · exact hok a s' hx

theorem Triple.of_after {x : Cmd S α} (h : ∀ s, P s → E (x s).2) : Triple P x (fun _ => E) E := by
  intro s hs
  have hE := h s hs
  constructor
  · intro a s' heq
    rw [heq] at hE
    exact hE
  · intro e s' heq
    rw [heq] at hE
    exact hE

theorem Triple.pure {Q : α → S → Prop} {a : α} (h : ∀ s, P s → Q a s) :
    Triple P (Pure.pure a : Cmd S α) Q E := by
  intro s hs
  constructor
  · intro b s' heq
    cases heq
    exact h s hs
  · intro e s' heq
    cases heq

theorem Triple.bind {x : Cmd S α} {f : α → Cmd S β} {R : α → S → Prop} {Q : β → S → Prop}
    (hx : Triple P x R E) (hf : ∀ a, Triple (R a) (f a) Q E) : Triple P (x >>= f) Q E := by
  intro s hs
  obtain ⟨hok, herr⟩ := hx s hs
  change (∀ b s', Cmd.bind x f s = _ → _) ∧ ∀ e s', Cmd.bind x f s = _ → _
  unfold Cmd.bind
  rcases hxs : x s with ⟨e | a, s₁⟩
  · constructor
    · intro b s' heq
      cases heq
    · intro e' s' heq
      cases heq
      exact herr e s₁ hxs
  · exact hf a s₁ (hok a s₁ hxs)

theorem Triple.lift {x : Go α} {Q : α → S → Prop} (hQ : ∀ a s, x = .ok a → P s → Q a s)
    (hE : ∀ e s, x = .error e → P s → E s) : Triple P (lift x) Q E := by
  intro s hs
  constructor
  · intro a s' heq
    obtain ⟨rfl, rfl⟩ := lift_ok_iff.mp heq
    exact hQ a s' rfl hs
  · intro e s' heq
    obtain ⟨rfl, rfl⟩ := Prod.mk.inj heq
    exact hE e s rfl hs

theorem Triple.read {f : S → α} {Q : α → S → Prop} (hQ : ∀ s, P s → Q (f s) s) :
    Triple P (read f) Q E := by
  intro s hs
  constructor
  · intro a s' heq
    cases heq
    exact hQ s hs
  · intro e s' heq
    cases heq

theorem Triple.modify {f : S → S} {Q : Unit → S → Prop} (hQ : ∀ s, P s → Q () (f s)) :
    Triple P (modify f) Q E := by
  intro s hs
  constructor
  · intro a s' heq
    cases heq
    exact hQ s hs
  · intro e s' heq
    cases heq

/-- What does not change the state keeps everything that is said of it. -/
theorem Triple.lift_self (x : Go α) : Triple P (Cmd.lift x) (fun _ => P) P :=
  .lift (fun _ _ _ h => h) fun _ _ _ h => h

theorem Triple.read_self (f : S → α) : Triple P (Cmd.read f) (fun _ => P) P := .read fun _ h => h

/-- A triple about a part of the state, in any state around it. -/
theorem Triple.on {get : S → T} {put : T → S → S} {x : Cmd T α} {Q : α → S → Prop}
    {P' : T → Prop} {Q' : α → T → Prop} {E' : T → Prop} (hx : Triple P' x Q' E')
    (hP : ∀ s, P s → P' (get s)) (hQ : ∀ s a t, P s → Q' a t → Q a (put t s))
    (hE : ∀ s t, P s → E' t → E (put t s)) : Triple P (on get put x) Q E := by
  intro s hs
  obtain ⟨hok, herr⟩ := hx (get s) (hP s hs)
  constructor
  · intro a s' heq
    obtain ⟨t, ht, rfl⟩ := on_ok_iff.mp heq
    exact hQ s a t hs (hok a t ht)
  · intro e s' heq
    obtain ⟨hr, rfl⟩ := Prod.mk.inj heq
    exact hE s _ hs (herr e _ (Prod.ext hr rfl))

/-- A computation on a part of the state keeps what is said of the rest. -/
theorem Triple.frame {get : S → T} {put : T → S → S} {x : Cmd T α}
    (h : ∀ s t, P s → P (put t s)) : Triple P (Cmd.on get put x) (fun _ => P) P := by
  have htrue : Triple (fun _ => True) x (fun _ _ => True) fun _ => True :=
    fun _ _ => ⟨fun _ _ _ => trivial, fun _ _ _ => trivial⟩
  exact htrue.on (fun _ _ => trivial) (fun s _ t hs _ => h s t hs) fun s t hs _ => h s t hs

theorem Triple.wrap {msg : String} {x : Cmd S α} {Q : α → S → Prop} (h : Triple P x Q E) :
    Triple P (wrap msg x) Q E := by
  intro s hs
  obtain ⟨hok, herr⟩ := h s hs
  constructor
  · intro a s' heq
    exact hok a s' (wrap_ok_iff.mp heq)
  · intro e s' heq
    rcases hx : x s with ⟨e' | a, s₁⟩
    · unfold Cmd.wrap at heq
      rw [hx] at heq
      cases (Prod.mk.inj heq).2
      exact herr e' s₁ hx
    · unfold Cmd.wrap at heq
      rw [hx] at heq
      cases heq

end Cmd

end Outcome
