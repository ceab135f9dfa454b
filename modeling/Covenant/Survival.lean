import Covenant.Committee
import Covenant.Conversion
import Covenant.Crash

/-! What takes a member down. A loop that is down never got its ticker, or was shown a page
that it could not get over (`Deadly`): a record that does not convert, a delegation at which
the signer panics, or anything unsigned when there is no batch size or no account to sign
with (`taken_down_by`). One record that does not convert is enough to silence all members for
as long as it stays on the first page (`poisoned_committee_silent`). -/

namespace Covenant.Survival
open Outcome Lists Interaction Reactor Bitcoin Covenant.Types Emulator Signing Loop Controller
  Records Chain Runs Ticks Member Committee Crash Reference

/-! ## Pages -/

/-- Nothing but a panic comes of the record. -/
def Unconvertible (lib : Lib) (r : BTCDelegation) : Prop := ∀ d, convertDelegationType lib r ≠ .ok d

variable {lib : Lib} {bc : BabylonController} {ce : CovenantEmulator} {p : StakingParams}

theorem convertAll_eq_error_iff {dels : Slice BTCDelegation} :
    (∃ x, convertAll lib dels = .error x) ↔ ∃ r ∈ dels.elems, Unconvertible lib r := by
  constructor
  · rintro ⟨x, hx⟩
    by_contra hnone
    have hall : ∀ r ∈ dels.elems, ∃ d, convertDelegationType lib r = .ok d := by
      intro r hr
      by_contra hd
      exact hnone ⟨r, hr, not_exists.mp hd⟩
    obtain ⟨ds, hds⟩ := exists_forall₂ hall
    obtain ⟨_, hok⟩ := convertAll_of_mapM (mapM_eq_ok_iff.mpr hds)
    rw [hok] at hx
    cases hx
  · rintro ⟨r, hr, hun⟩
    cases hc : convertAll lib dels with
    | error x => exact ⟨x, rfl⟩
    | ok ds =>
      obtain ⟨xs, hxs, _⟩ := convertAll_eq_ok hc
      obtain ⟨d, _, hd⟩ := exists_right_of_mem (mapM_eq_ok_iff.mp hxs) hr
      exact absurd hd (hun d)

/-- A tick gets over a page only if all its records convert. -/
theorem halts_of_page {t : RpcTrace} {q : Rpc CovenantEmulator} {res : BTCDelegationsResponse}
    (h : Prog.Steps (memberTick lib bc ce) t q) (hres : res ∈ pages t)
    (hun : ∃ r ∈ res.btcDelegations.elems, Unconvertible lib r) : ∃ x, q = .halt x := by
  obtain ⟨x, hx⟩ := convertAll_eq_error_iff.mpr hun
  obtain ⟨s, p', t₁, t₂, rfl, hs, hcar, hlast⟩ := Prog.steps_interp h
  have hbefore : res ∉ pages t₁ := by
    intro hmem
    obtain ⟨dels, _, hconv⟩ := exists_right_of_mem (hcar.filterMap pages_of_call).flip hmem
    rw [hx] at hconv
    cases hconv
  have hafter : res ∈ pages t₂ := by
    unfold pages at hres hbefore ⊢
    rw [List.filterMap_append] at hres
    exact (List.mem_append.mp hres).resolve_left hbefore
  rcases hlast with ⟨rfl, _⟩ | ⟨c, k, r, _, hr, _, rfl⟩
  · cases hafter
  · cases c with
    | queryPendingDelegations limit =>
      rcases steps_queryDelegationsWithStatus hr with ⟨rfl, _⟩ | ⟨_, _, rfl, _⟩ | ⟨res', rfl, hq⟩
      · cases hafter
      · cases hafter
      · rw [List.mem_singleton.mp hafter] at hx
        rcases hq with ⟨y, _, rfl⟩ | ⟨dels, hconv, _⟩
        · exact ⟨y, rfl⟩
        · rw [hx] at hconv
          cases hconv
    | _ =>
      rw [pages_of_other hr nofun] at hafter
      cases hafter

/-! ## Runs -/

theorem withParams_of_run {ce₁ : CovenantEmulator} {as : List (Action bbnClient CovenantEmulator)}
    {ph : Phase bbnClient Halt CovenantEmulator} (h : Reactor.Run (memberTick lib bc) ce as ph)
    (ht : .tick ce₁ ∈ as) (p : StakingParams) : withParams ce₁ p = withParams ce p := by
  refine (h.invariant (P := fun c => withParams c p = withParams ce p) rfl ?_).2 ce₁ ht
  intro c t c' hc hs
  exact (withParams_of_tick hs p).trans hc

/-- After a record that does not convert there is nothing but the crash. -/
theorem last_page {as bs : List (Action bbnClient CovenantEmulator)}
    {status : BTCDelegationStatus} {pagination : PageRequest} {res : BTCDelegationsResponse}
    {phase : Phase bbnClient Halt CovenantEmulator}
    (h : Reactor.Run (memberTick lib bc) ce
      (as ++ .event (paged status pagination res) :: bs) phase)
    (hun : ∃ r ∈ res.btcDelegations.elems, Unconvertible lib r) : bs = [] ∨ bs = [.crash] := by
  obtain ⟨as', ce₁, t, _, rfl, _⟩ := h.event
  rw [List.append_cons] at h
  obtain ⟨ph₁, h₁⟩ := h.of_append
  have hround : as' ++ .tick ce₁ :: t.map .event ++ [.event (paged status pagination res)] =
      as' ++ .tick ce₁ :: (t ++ [paged status pagination res]).map .event := by simp
  rw [hround] at h₁ h
  obtain ⟨_, q, rfl, hs⟩ := Reactor.Run.round h₁
  have hres : res ∈ pages (t ++ [paged status pagination res]) := by simp [pages, pageOf]
  obtain ⟨x, rfl⟩ := halts_of_page hs hres hun
  exact Reactor.Run.halted h₁ h

section

variable {ι : Type} [DecidableEq ι] {bc : ι → BabylonController} {ce₀ : ι → CovenantEmulator}
  {c₀ c : Ledger lib} {ls : Log ι} {ph : ι → Phase bbnClient Halt CovenantEmulator}

/-- The first page of every member shows a record that does not convert. -/
def Poisoned (lib : Lib) (ce₀ : ι → CovenantEmulator) (c : Ledger lib) : Prop :=
  ∀ i, ∃ r ∈ c.page .pending ⟨none, (ce₀ i).config.delegationLimit⟩, Unconvertible lib r

/-- A run of the committee in which the chain stays poisoned. -/
abbrev PoisonedRun (lib : Lib) (bc : ι → BabylonController) (ce₀ : ι → CovenantEmulator)
    (c₀ : Ledger lib) (ls : Log ι) (ph : ι → Phase bbnClient Halt CovenantEmulator) (c : Ledger lib) :
    Prop :=
  System.Run ((babylon lib ι).within fun c c' => Evolves c c' ∧ Poisoned lib ce₀ c')
    (fun i => memberTick lib (bc i)) (fun i => .select (ce₀ i)) c₀ ls ph c

omit [DecidableEq ι] in
theorem poisoned_of_responds {c c' : Ledger lib} {e : Event bbnClient} (h : Poisoned lib ce₀ c)
    (hr : Responds c e c') : Poisoned lib ce₀ c' := by
  have hpage : ∀ status pagination, c'.page status pagination = c.page status pagination := by
    intro status pagination
    unfold Ledger.page Ledger.listed
    rw [dels_of_responds hr]
  intro i
  rw [hpage]
  exact h i

theorem poisoned_of_run {c : Ledger lib} (h₀ : Poisoned lib ce₀ c₀)
    (h : PoisonedRun lib bc ce₀ c₀ ls ph c) : Poisoned lib ce₀ c := by
  refine System.Run.environment (P := fun _ c => Poisoned lib ce₀ c) h₀ ?_ ?_ h
  · intro ls c c' _ hc
    exact hc.2
  · intro ls i a c c' hc ha
    cases a with
    | event e => exact poisoned_of_responds hc ha
    | _ =>
      cases ha
      exact hc

theorem last_of_poisoned (h₀ : Poisoned lib ce₀ c₀) (h : PoisonedRun lib bc ce₀ c₀ ls ph c) {i : ι}
    {as bs : List (Action bbnClient CovenantEmulator)} {res : BTCDelegationsResponse}
    (heq : System.actions i ls =
      as ++ .event (paged .pending ⟨none, (ce₀ i).config.delegationLimit⟩ res) :: bs) :
    bs = [] ∨ bs = [.crash] := by
  obtain ⟨ls₁, ls₂, rfl, rfl, rfl⟩ := System.append_cons_of_actions heq
  obtain ⟨_, c₁, _, hrun, ⟨_, hres⟩, _⟩ := System.Run.event (R := fun _ _ => True)
    (fun _ => trivial) (fun _ _ => trivial) (fun _ => trivial) (fun _ => trivial) h
  have hun := poisoned_of_run h₀ hrun i
  rw [← (hres res rfl).1] at hun
  have hi := h.actions i
  rw [heq] at hi
  exact last_page hi hun

/-- Nothing is sent before a page has been read. -/
theorem page_before_send {b : BabylonController} {ce : CovenantEmulator}
    {as bs : List (Action bbnClient CovenantEmulator)} {msgs : List MsgAddCovenantSigs}
    {a : Except GoError RelayerTxResponse} {phase : Phase bbnClient Halt CovenantEmulator}
    (h : Reactor.Run (memberTick lib b) ce (as ++ .event ⟨.reliablySendMsgs msgs, a⟩ :: bs) phase) :
    ∃ as₁ as₂ res, as = as₁ ++ .event (paged .pending ⟨none, ce.config.delegationLimit⟩ res) :: as₂ := by
  obtain ⟨as', ce₁, t, q, rfl, ht⟩ := h.event
  have htick : .tick ce₁ ∈ as' ++ .tick ce₁ :: t.map .event ++ .event ⟨.reliablySendMsgs msgs, a⟩ :: bs := by
    simp
  rcases memberTick_sends ht with hnil | ⟨ckpt, staking, p, res, rs, hs⟩
  · simp [sends, sendOf] at hnil
  · have hpage : paged .pending ⟨none, ce₁.config.delegationLimit⟩ res ∈ t := by
      rcases List.mem_append.mp hs.page_mem with hp | hp
      · exact hp
      · cases List.mem_singleton.mp hp
    rw [(tick_keeps h htick).2] at hpage
    exact List.append_of_mem (by simp [hpage]) |>.elim fun as₁ ⟨as₂, heq⟩ => ⟨as₁, as₂, res, heq⟩

/-- **One record silences the committee.** -/
theorem poisoned_committee_silent (lib : Lib) (bc : ι → BabylonController)
    (ce₀ : ι → CovenantEmulator) (c₀ : Ledger lib) (h₀ : Poisoned lib ce₀ c₀) (ls : Log ι)
    (ph : ι → Phase bbnClient Halt CovenantEmulator) (c : Ledger lib)
    (h : PoisonedRun lib bc ce₀ c₀ ls ph c) (i : ι) :
    (∀ msgs a, .event ⟨.reliablySendMsgs msgs, a⟩ ∉ System.actions i ls) ∧
      ∀ as bs res, System.actions i ls =
          as ++ .event (paged .pending ⟨none, (ce₀ i).config.delegationLimit⟩ res) :: bs →
        bs = [] ∨ bs = [.crash] := by
  constructor
  · intro msgs a hmem
    obtain ⟨as, bs, heq⟩ := List.append_of_mem hmem
    have hi := h.actions i
    rw [heq] at hi
    obtain ⟨as₁, as₂, res, rfl⟩ := page_before_send hi
    rw [List.append_assoc, List.cons_append] at heq
    rcases last_of_poisoned h₀ h heq with hrest | hrest
    · simp at hrest
    · rcases as₂ with _ | ⟨b, as₂⟩
      · cases hrest
      · simp at hrest
  · intro as bs res heq
    exact last_of_poisoned h₀ h heq

end

/-! ### A record without an unbonding transaction -/

def incompleteRecord : BTCDelegation :=
  { sampleRecord with btcUndelegation := some ⟨none, none, none, [], []⟩ }

theorem unconvertible_incompleteRecord : Unconvertible sampleLib incompleteRecord := by
  intro d hd
  obtain ⟨ud, _, hud⟩ := (convertDelegationType_eq_ok_iff.mp hd).undelegation_some rfl
  exact (Conversion.completeUndelegation_of_converts hud).unbondingTx rfl

def incompleteEntry : Entry sampleLib where
  hash := stakingHash
  record := incompleteRecord
  status := .pending
  keyed := by
    rw [← recordHash_sampleRecord]
    exact recordHash_congr rfl

def incompleteLedger : Ledger sampleLib :=
  { sampleLedger 2 [] with dels := ⟨[incompleteEntry], List.nodup_singleton _⟩ }

theorem poisoned_incompleteLedger :
    Poisoned sampleLib (fun b => startWith (memberKey b)) incompleteLedger := by
  intro i
  exact ⟨incompleteRecord, List.mem_singleton_self _, unconvertible_incompleteRecord⟩

def incompletePage : BTCDelegationsResponse := ⟨⟨[incompleteRecord], by decide⟩, none⟩

/-- The calls of a tick that the record brings to an end. -/
def incompleteTick : RpcTrace :=
  [⟨.btcCheckpointParams, .ok incompleteLedger.ckptParams⟩,
    ⟨.btcStakingParams, .ok incompleteLedger.stakingParams⟩, paged .pending ⟨none, 100⟩ incompletePage]

theorem steps_incompleteTick (pk : PublicKey) : ∃ x,
    Prog.Steps (memberTick sampleLib sampleController (startWith pk)) incompleteTick (.halt x) := by
  have hun : ∃ r ∈ incompletePage.btcDelegations.elems, Unconvertible sampleLib r :=
    ⟨incompleteRecord, List.mem_singleton_self _, unconvertible_incompleteRecord⟩
  obtain ⟨x, hx⟩ := convertAll_eq_error_iff.mpr hun
  obtain ⟨k, htick, hk⟩ := exists_tick_eq sampleLib (startWith pk)
  have hpage : Prog.Steps (queryPendingDelegations sampleLib 100)
      [paged .pending ⟨none, 100⟩ incompletePage] (.halt x) := by
    refine .call (I := bbnClient) (c := .btcDelegations .pending ⟨none, 100⟩) (.ok incompletePage) ?_
    simp only [Prog.ret_bind, hx]
    exact .refl _
  refine ⟨x, ?_⟩
  unfold memberTick
  rw [htick]
  refine Prog.Steps.bind (steps_fetch 2) ?_
  rw [hk]
  exact hpage.bind_left _

theorem answers_incompleteTick {ι : Type} (i : ι) :
    System.Answers (babylon sampleLib ι) i incompleteLedger incompleteTick incompleteLedger := by
  refine .cons ⟨rfl, ?_⟩ (.cons ⟨rfl, ?_⟩ (.cons ⟨rfl, ?_⟩ (.nil _)))
  · intro ckpt h
    cases h
    rfl
  · intro staking h
    cases h
    rfl
  · intro res h
    cases h
    exact ⟨rfl, rfl⟩

/-- One member reads the page and goes down; the other takes a tick. -/
def incompleteLog : Log Bool :=
  [.act true (.tick (startWith (memberKey true)))] ++
    (incompleteTick.map fun e => .act true (.event e)) ++ [.act true .crash] ++
    [.act false (.tick (startWith (memberKey false)))]

theorem run_incompleteLog : ∃ ph x, PoisonedRun sampleLib (fun _ => sampleController)
    (fun b => startWith (memberKey b)) incompleteLedger incompleteLog ph incompleteLedger ∧
      ph true = .down x := by
  obtain ⟨x, hsteps⟩ := steps_incompleteTick (memberKey true)
  have h0 : PoisonedRun sampleLib (fun _ => sampleController) (fun b => startWith (memberKey b))
      incompleteLedger [] _ incompleteLedger := .init
  have h1 := h0.act (i := true) (a := .tick _) (.tick _) rfl
  have h2 := h1.steps (Function.update_self ..) hsteps (answers_incompleteTick true).within
  have h3 := h2.act (i := true) (a := .crash) (x := .down x) (by
    rw [Function.update_self]
    exact .crash x) rfl
  have h4 := h3.act (i := false) (a := .tick _) (.tick _) rfl
  exact ⟨_, x, h4, rfl⟩

theorem poisoned_committee_silent_sample :
    ∃ ph, PoisonedRun sampleLib (fun _ => sampleController) (fun b => startWith (memberKey b))
        incompleteLedger incompleteLog ph incompleteLedger ∧
      ∀ b msgs a, .event ⟨.reliablySendMsgs msgs, a⟩ ∉ System.actions b incompleteLog := by
  obtain ⟨ph, _, h, _⟩ := run_incompleteLog
  refine ⟨ph, h, fun b => ?_⟩
  exact (poisoned_committee_silent sampleLib _ _ incompleteLedger poisoned_incompleteLedger
    incompleteLog ph incompleteLedger h b).1

end Covenant.Survival
