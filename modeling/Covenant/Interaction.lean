import Mathlib.Data.List.Forall2

/-! Programs that interact with an environment. A program returns a value, halts
abnormally, or makes a call and continues with the answer. The environment is not
part of the program: `Steps` follows a program under every sequence of answers,
`play` under a fixed answering function, and `interp` implements the calls of one
interface by programs over another. Nothing here depends on what the calls are. -/

namespace Interaction

/-- The calls a program may make, with the type of the answer to each. -/
structure Interface where
  Call : Type
  Answer : Call → Type

/-- `H` is the type of abnormal ends (a panic, a computation that never ends). -/
inductive Prog (I : Interface) (H α : Type) where
  | ret (a : α)
  | halt (h : H)
  | call (c : I.Call) (k : I.Answer c → Prog I H α)

/-- A call together with the answer it got. -/
structure Event (I : Interface) where
  call : I.Call
  answer : I.Answer call

abbrev Trace (I : Interface) := List (Event I)

variable {I J : Interface} {H α β γ : Type}

namespace Prog

def bind : Prog I H α → (α → Prog I H β) → Prog I H β
  | .ret a, f => f a
  | .halt h, _ => .halt h
  | .call c k, f => .call c fun a => (k a).bind f

instance : Monad (Prog I H) where
  pure := .ret
  bind := .bind

/-- One call, whose answer is the result. -/
def ask (c : I.Call) : Prog I H (I.Answer c) := .call c .ret

/-- A computation without calls. -/
def ofExcept : Except H α → Prog I H α
  | .ok a => .ret a
  | .error h => .halt h

@[simp] theorem pure_eq (a : α) : (pure a : Prog I H α) = .ret a := rfl
@[simp] theorem bind_eq (p : Prog I H α) (f : α → Prog I H β) : p >>= f = p.bind f := rfl
@[simp] theorem ret_bind (a : α) (f : α → Prog I H β) : (ret a : Prog I H α).bind f = f a := rfl
@[simp] theorem halt_bind (h : H) (f : α → Prog I H β) : (halt h : Prog I H α).bind f = .halt h :=
  rfl
@[simp] theorem call_bind (c : I.Call) (k : I.Answer c → Prog I H α) (f : α → Prog I H β) :
    (call c k).bind f = .call c fun a => (k a).bind f := rfl

theorem bind_assoc (p : Prog I H α) (f : α → Prog I H β) (g : β → Prog I H γ) :
    (p.bind f).bind g = p.bind fun a => (f a).bind g := by
  induction p with
  | ret a => rfl
  | halt h => rfl
  | call c k ih =>
    simp only [call_bind, call.injEq, heq_eq_eq, true_and]
    funext a
    exact ih a

/-- Call `f` until it succeeds, at most `n + 1` times. The state `s` holds the variables
that the retried function captures. -/
def retryDo {S ε : Type} (f : S → Prog I H (Except ε Unit × S)) :
    Nat → S → Prog I H (Except ε Unit × S)
  | 0, s => f s
  | n + 1, s => (f s).bind fun r =>
    match r.1 with
    | .ok () => .ret r
    | .error _ => retryDo f n r.2

/-! ## Runs under arbitrary answers -/

/-- `Steps p t q`: some answers lead `p` to `q`, and `t` lists the calls with them. -/
inductive Steps : Prog I H α → Trace I → Prog I H α → Prop
  | refl (p : Prog I H α) : Steps p [] p
  | call {c : I.Call} {k : I.Answer c → Prog I H α} {t : Trace I} {q : Prog I H α}
      (a : I.Answer c) : Steps (k a) t q → Steps (.call c k) (⟨c, a⟩ :: t) q

theorem Steps.trans {p q r : Prog I H α} {t u : Trace I} (h : Steps p t q) (hu : Steps q u r) :
    Steps p (t ++ u) r := by
  induction h with
  | refl p => exact hu
  | call a _ ih => exact .call a (ih hu)

theorem steps_ret {a : α} {t : Trace I} {q : Prog I H α} (h : Steps (.ret a) t q) :
    t = [] ∧ q = .ret a := by
  cases h
  exact ⟨rfl, rfl⟩

theorem steps_halt {h : H} {t : Trace I} {q : Prog I H α} (hs : Steps (.halt h) t q) :
    t = [] ∧ q = .halt h := by
  cases hs
  exact ⟨rfl, rfl⟩

theorem steps_call {c : I.Call} {k : I.Answer c → Prog I H α} {t : Trace I} {q : Prog I H α}
    (h : Steps (.call c k) t q) :
    (t = [] ∧ q = .call c k) ∨ ∃ a u, t = ⟨c, a⟩ :: u ∧ Steps (k a) u q := by
  cases h with
  | refl => exact Or.inl ⟨rfl, rfl⟩
  | call a hk => exact Or.inr ⟨a, _, rfl, hk⟩

/-- A run of `p >>= f` is still in `p`, or has left `p` and is in `f`. -/
theorem steps_bind {p : Prog I H α} {f : α → Prog I H β} {t : Trace I} {q : Prog I H β}
    (h : Steps (p.bind f) t q) :
    (∃ p', Steps p t p' ∧ (∀ a, p' ≠ .ret a) ∧ q = p'.bind f) ∨
      ∃ a u v, t = u ++ v ∧ Steps p u (.ret a) ∧ Steps (f a) v q := by
  induction p generalizing t with
  | ret a => exact Or.inr ⟨a, [], t, rfl, .refl _, h⟩
  | halt x =>
    obtain ⟨rfl, rfl⟩ := steps_halt h
    exact Or.inl ⟨.halt x, .refl _, by simp, rfl⟩
  | call c k ih =>
    rcases steps_call h with ⟨rfl, rfl⟩ | ⟨a, u, rfl, hk⟩
    · exact Or.inl ⟨.call c k, .refl _, by simp, rfl⟩
    · rcases ih a hk with ⟨p', hp, hne, rfl⟩ | ⟨b, u', v, rfl, hp, hf⟩
      · exact Or.inl ⟨p', .call a hp, hne, rfl⟩
      · exact Or.inr ⟨b, ⟨c, a⟩ :: u', v, rfl, .call a hp, hf⟩

/-- A complete run of `p >>= f` is a complete run of `p` followed by one of `f`. -/
theorem steps_bind_ret {p : Prog I H α} {f : α → Prog I H β} {t : Trace I} {b : β}
    (h : Steps (p.bind f) t (.ret b)) :
    ∃ a u v, t = u ++ v ∧ Steps p u (.ret a) ∧ Steps (f a) v (.ret b) := by
  rcases steps_bind h with ⟨p', hp, hne, hq⟩ | h'
  · cases p' with
    | ret a => exact absurd rfl (hne a)
    | halt x => cases hq
    | call c k => cases hq
  · exact h'

theorem steps_ofExcept_ret {x : Except H α} {f : α → Prog I H β} {t : Trace I} {b : β}
    (h : Steps ((ofExcept x).bind f) t (.ret b)) : ∃ a, x = .ok a ∧ Steps (f a) t (.ret b) := by
  cases x with
  | ok a => exact ⟨a, rfl, h⟩
  | error e =>
    obtain ⟨_, hq⟩ := steps_halt h
    cases hq

theorem steps_ask_ret {c : I.Call} {f : I.Answer c → Prog I H β} {t : Trace I} {b : β}
    (h : Steps ((ask c).bind f) t (.ret b)) :
    ∃ a u, t = ⟨c, a⟩ :: u ∧ Steps (f a) u (.ret b) := by
  rcases steps_call h with ⟨_, hq⟩ | h'
  · cases hq
  · exact h'

theorem Steps.bind_left {p p' : Prog I H α} {t : Trace I} (h : Steps p t p')
    (f : α → Prog I H β) : Steps (p.bind f) t (p'.bind f) := by
  induction h with
  | refl p => exact .refl _
  | call a _ ih => exact .call a ih

theorem Steps.bind {p : Prog I H α} {f : α → Prog I H β} {a : α} {t u : Trace I} {q : Prog I H β}
    (h : Steps p t (.ret a)) (hf : Steps (f a) u q) : Steps (p.bind f) (t ++ u) q :=
  (h.bind_left f).trans hf

/-- **Retries.** When each attempt is one call, a run of `retryDo` is a list of failed
attempts, at most `n`, and possibly one more attempt that ends it: the first that
succeeds, or the last. -/
theorem steps_retryDo {S ε : Type} {c : I.Call} {res : I.Answer c → Except ε Unit}
    {st : I.Answer c → S} {n : Nat} {s : S} {t : Trace I} {q : Prog I H (Except ε Unit × S)}
    (h : Steps (retryDo (fun _ => .call c fun a => .ret (res a, st a)) n s) t q) :
    ∃ bs : List (I.Answer c), bs.length ≤ n ∧ (∀ b ∈ bs, res b ≠ .ok ()) ∧
      ((t = bs.map (Event.mk c) ∧ ∃ k, q = .call c k) ∨
        ∃ a, t = bs.map (Event.mk c) ++ [⟨c, a⟩] ∧ (res a = .ok () ∨ bs.length = n) ∧
          q = .ret (res a, st a)) := by
  induction n generalizing s t with
  | zero =>
    refine ⟨[], Nat.le_refl _, by simp, ?_⟩
    rcases steps_call h with ⟨rfl, rfl⟩ | ⟨a, u, rfl, hu⟩
    · exact Or.inl ⟨rfl, _, rfl⟩
    · obtain ⟨rfl, rfl⟩ := steps_ret hu
      exact Or.inr ⟨a, rfl, Or.inr rfl, rfl⟩
  | succ n ih =>
    rcases steps_call h with ⟨rfl, rfl⟩ | ⟨a, u, rfl, hu⟩
    · exact ⟨[], Nat.zero_le _, by simp, Or.inl ⟨rfl, _, rfl⟩⟩
    · cases hr : res a with
      | ok x =>
        simp only [ret_bind, hr] at hu
        obtain ⟨rfl, rfl⟩ := steps_ret hu
        exact ⟨[], Nat.zero_le _, by simp, Or.inr ⟨a, rfl, Or.inl hr, by rw [hr]⟩⟩
      | error e =>
        simp only [ret_bind, hr] at hu
        obtain ⟨bs, hlen, hfail, hq⟩ := ih hu
        refine ⟨a :: bs, Nat.succ_le_succ hlen, ?_, ?_⟩
        · intro b hb
          rcases List.mem_cons.mp hb with rfl | hb
          · rw [hr]
            exact fun h => nomatch h
          · exact hfail b hb
        · rcases hq with ⟨rfl, hq⟩ | ⟨a', rfl, ha', rfl⟩
          · exact Or.inl ⟨rfl, hq⟩
          · refine Or.inr ⟨a', rfl, ?_, rfl⟩
            rcases ha' with h | h
            · exact Or.inl h
            · exact Or.inr (congrArg (· + 1) h)

/-! ## Runs under a fixed answering function -/

/-- Answer every call by `ans`; the trace and how the program ends. -/
def play (ans : (c : I.Call) → I.Answer c) : Prog I H α → Trace I × Except H α
  | .ret a => ([], .ok a)
  | .halt h => ([], .error h)
  | .call c k =>
    let r := ((k (ans c)).play ans)
    (⟨c, ans c⟩ :: r.1, r.2)

variable (ans : (c : I.Call) → I.Answer c)

@[simp] theorem play_ret (a : α) : (ret a : Prog I H α).play ans = ([], .ok a) := rfl
@[simp] theorem play_halt (h : H) : (halt h : Prog I H α).play ans = ([], .error h) := rfl
@[simp] theorem play_call (c : I.Call) (k : I.Answer c → Prog I H α) :
    (call c k).play ans = (⟨c, ans c⟩ :: ((k (ans c)).play ans).1, ((k (ans c)).play ans).2) := rfl

theorem play_bind (p : Prog I H α) (f : α → Prog I H β) :
    (p.bind f).play ans =
      match (p.play ans).2 with
      | .ok a => ((p.play ans).1 ++ ((f a).play ans).1, ((f a).play ans).2)
      | .error h => ((p.play ans).1, .error h) := by
  induction p with
  | ret a => rfl
  | halt h => rfl
  | call c k ih =>
    simp only [call_bind, play_call, ih (ans c)]
    cases ((k (ans c)).play ans).2 <;> rfl

/-- Playing is one of the runs. -/
theorem steps_play (p : Prog I H α) : Steps p (p.play ans).1 (ofExcept (p.play ans).2) := by
  induction p with
  | ret a => exact .refl _
  | halt h => exact .refl _
  | call c k ih => exact .call (ans c) (ih (ans c))

@[simp] theorem play_ofExcept (x : Except H α) : (ofExcept x : Prog I H α).play ans = ([], x) := by
  cases x <;> rfl

/-- The results of a sequence are those of `Except`. -/
theorem play_bind_snd (p : Prog I H α) (f : α → Prog I H β) :
    ((p.bind f).play ans).2 = (p.play ans).2 >>= fun a => ((f a).play ans).2 := by
  rw [play_bind]
  cases (p.play ans).2 <;> rfl

/-! ## What holds of every call -/

/-- Every call that the program can come to satisfies `P`, whatever is answered. -/
inductive AllCalls (P : I.Call → Prop) : Prog I H α → Prop
  | ret (a : α) : AllCalls P (.ret a)
  | halt (h : H) : AllCalls P (.halt h)
  | call {c : I.Call} {k : I.Answer c → Prog I H α} :
      P c → (∀ a, AllCalls P (k a)) → AllCalls P (.call c k)

theorem AllCalls.ofExcept {P : I.Call → Prop} (x : Except H α) :
    AllCalls P (ofExcept x : Prog I H α) := by
  cases x with
  | ok a => exact .ret a
  | error h => exact .halt h

theorem AllCalls.ask {P : I.Call → Prop} {c : I.Call} (h : P c) :
    AllCalls P (ask c : Prog I H (I.Answer c)) :=
  .call h .ret

theorem AllCalls.bind {P : I.Call → Prop} {p : Prog I H α} {f : α → Prog I H β}
    (hp : AllCalls P p) (hf : ∀ a, AllCalls P (f a)) : AllCalls P (p.bind f) := by
  induction hp with
  | ret a => exact hf a
  | halt h => exact .halt h
  | call hc _ ih => exact .call hc ih

theorem AllCalls.imp {P Q : I.Call → Prop} (h : ∀ c, P c → Q c) {p : Prog I H α}
    (hp : AllCalls P p) : AllCalls Q p := by
  induction hp with
  | ret a => exact .ret a
  | halt x => exact .halt x
  | call hc _ ih => exact .call (h _ hc) ih

theorem AllCalls.steps {P : I.Call → Prop} {p q : Prog I H α} {t : Trace I} (h : AllCalls P p)
    (hs : Steps p t q) : ∀ e ∈ t, P e.call := by
  induction hs with
  | refl p => simp
  | call a _ ih =>
    cases h with
    | call hc hk => exact List.forall_mem_cons.mpr ⟨hc, ih (hk a)⟩

/-- Whatever is answered, the program does not halt. -/
inductive NoHalt : Prog I H α → Prop
  | ret (a : α) : NoHalt (.ret a)
  | call {c : I.Call} {k : I.Answer c → Prog I H α} : (∀ a, NoHalt (k a)) → NoHalt (.call c k)

theorem NoHalt.steps {p q : Prog I H α} {t : Trace I} (h : NoHalt p) (hs : Steps p t q) :
    NoHalt q := by
  induction hs with
  | refl p => exact h
  | call a _ ih =>
    cases h with
    | call hk => exact ih (hk a)

def interp (impl : (c : I.Call) → Prog J H (I.Answer c)) : Prog I H α → Prog J H α
  | .ret a => .ret a
  | .halt h => .halt h
  | .call c k => (impl c).bind fun a => (k a).interp impl

variable {impl : (c : I.Call) → Prog J H (I.Answer c)}

/-- The trace `t` over `J` carries out the calls of the trace `s` over `I`. -/
inductive Carries (impl : (c : I.Call) → Prog J H (I.Answer c)) : Trace I → Trace J → Prop
  | nil : Carries impl [] []
  | cons {c : I.Call} {a : I.Answer c} {s : Trace I} {t u : Trace J} :
      Steps (impl c) t (.ret a) → Carries impl s u → Carries impl (⟨c, a⟩ :: s) (t ++ u)

/-- Every call above is carried out below. -/
theorem Carries.run_of_mem {s : Trace I} {t : Trace J} (h : Carries impl s t) {c : I.Call}
    {a : I.Answer c} (hc : ⟨c, a⟩ ∈ s) : ∃ u, Steps (impl c) u (.ret a) ∧ ∀ e ∈ u, e ∈ t := by
  induction h with
  | nil => cases hc
  | cons hs _ ih =>
    rcases List.mem_cons.mp hc with heq | hc
    · cases heq
      exact ⟨_, hs, fun e he => List.mem_append_left _ he⟩
    · obtain ⟨u, hu, hsub⟩ := ih hc
      exact ⟨u, hu, fun e he => List.mem_append_right _ (hsub e he)⟩

theorem Carries.append_inv {s s' : Trace I} {t : Trace J} (h : Carries impl (s ++ s') t) :
    ∃ t₁ t₂, t = t₁ ++ t₂ ∧ Carries impl s t₁ ∧ Carries impl s' t₂ := by
  induction s generalizing t with
  | nil => exact ⟨[], t, rfl, .nil, h⟩
  | cons e s ih =>
    cases h with
    | @cons c a _ u v hc htail =>
      obtain ⟨t₁, t₂, rfl, h₁, h₂⟩ := ih htail
      exact ⟨u ++ t₁, t₂, (List.append_assoc ..).symm, .cons hc h₁, h₂⟩

/-- What is observed of single calls is observed, in order, of a trace. -/
theorem Carries.filterMap {X Y : Type} {f : Event I → Option X} {g : Event J → Option Y}
    {R : X → Y → Prop} (hcall : ∀ c a u, Steps (impl c) u (.ret a) →
      List.Forall₂ R ([⟨c, a⟩].filterMap f) (u.filterMap g))
    {s : Trace I} {t : Trace J} (h : Carries impl s t) :
    List.Forall₂ R (s.filterMap f) (t.filterMap g) := by
  induction h with
  | nil => exact .nil
  | @cons c a s t u hs _ ih =>
    have hsplit : (⟨c, a⟩ :: s : Trace I) = [⟨c, a⟩] ++ s := rfl
    rw [hsplit, List.filterMap_append, List.filterMap_append]
    exact List.rel_append (hcall c a t hs) ih

theorem Carries.steps {p p' : Prog I H α} {s : Trace I} {t : Trace J} (hs : Steps p s p')
    (h : Carries impl s t) : Steps (p.interp impl) t (p'.interp impl) := by
  induction hs generalizing t with
  | refl p =>
    cases h
    exact .refl _
  | call a _ ih =>
    cases h with
    | cons hc htail => exact hc.bind (ih htail)

/-- **Runs of an implementation.** A run of `p.interp impl` carries out a run of
`p`, and possibly the first part of the call that `p` makes next. -/
theorem steps_interp {p : Prog I H α} {t : Trace J} {q : Prog J H α}
    (h : Steps (p.interp impl) t q) :
    ∃ s p' t₁ t₂, t = t₁ ++ t₂ ∧ Steps p s p' ∧ Carries impl s t₁ ∧
      ((t₂ = [] ∧ q = p'.interp impl) ∨
        ∃ c k r, p' = .call c k ∧ Steps (impl c) t₂ r ∧ (∀ a, r ≠ .ret a) ∧
          q = r.bind fun a => (k a).interp impl) := by
  induction p generalizing t with
  | ret a =>
    obtain ⟨rfl, rfl⟩ := steps_ret h
    exact ⟨[], .ret a, [], [], rfl, .refl _, .nil, Or.inl ⟨rfl, rfl⟩⟩
  | halt x =>
    obtain ⟨rfl, rfl⟩ := steps_halt h
    exact ⟨[], .halt x, [], [], rfl, .refl _, .nil, Or.inl ⟨rfl, rfl⟩⟩
  | call c k ih =>
    rcases steps_bind h with ⟨r, hr, hne, rfl⟩ | ⟨a, u, v, rfl, hu, hv⟩
    · exact ⟨[], .call c k, [], t, rfl, .refl _, .nil, Or.inr ⟨c, k, r, rfl, hr, hne, rfl⟩⟩
    · obtain ⟨s, p', t₁, t₂, rfl, hs, hc, hq⟩ := ih a hv
      exact ⟨⟨c, a⟩ :: s, p', u ++ t₁, t₂, by rw [List.append_assoc], .call a hs,
        .cons hu hc, hq⟩

/-- A run that has returned carries out a run that has returned. -/
theorem steps_interp_ret {p : Prog I H α} {t : Trace J} {a : α}
    (h : Steps (p.interp impl) t (.ret a)) : ∃ s, Steps p s (.ret a) ∧ Carries impl s t := by
  induction p generalizing t with
  | ret b =>
    obtain ⟨rfl, hq⟩ := steps_ret h
    cases hq
    exact ⟨[], .refl _, .nil⟩
  | halt x =>
    obtain ⟨_, hq⟩ := steps_halt h
    cases hq
  | call c k ih =>
    obtain ⟨b, u, v, rfl, hu, hv⟩ := steps_bind_ret h
    obtain ⟨s, hs, hc⟩ := ih b hv
    exact ⟨⟨c, b⟩ :: s, .call b hs, .cons hu hc⟩

/-- An implementation goes through a sequence part by part. -/
theorem interp_bind (p : Prog I H α) (f : α → Prog I H β) :
    (p.bind f).interp impl = (p.interp impl).bind fun a => (f a).interp impl := by
  induction p with
  | ret a => rfl
  | halt x => rfl
  | call c k ih =>
    show ((impl c).bind fun a => ((k a).bind f).interp impl) = ((impl c).bind _).bind _
    rw [bind_assoc]
    congr 1
    funext a
    exact ih a

end Prog

end Interaction
