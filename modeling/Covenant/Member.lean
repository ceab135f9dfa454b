import Covenant.Controller
import Covenant.Lists
import Covenant.Ticks

/-! A covenant member: the submission loop over the Babylon client. What a tick sends is,
in order, the signatures of a sublist of the records on the page it queried, none of
which the member has signed (`memberTick_sends`). -/

namespace Covenant.Member
open Outcome Lists Interaction Bitcoin Covenant.Types Emulator Signing Loop Controller Gate Runs
  Ticks

/-! ## Observations -/

def sendOf : Event bbnClient → Option (List MsgAddCovenantSigs)
  | ⟨.reliablySendMsgs msgs, _⟩ => some msgs
  | _ => none

/-- The transactions that a trace sends, each a list of messages. -/
def sends (t : RpcTrace) : List (List MsgAddCovenantSigs) := t.filterMap sendOf

def pageOf : Event bbnClient → Option BTCDelegationsResponse
  | ⟨.btcDelegations _ _, .ok res⟩ => some res
  | _ => none

/-- The pages of delegations that a trace received. -/
def pages (t : RpcTrace) : List BTCDelegationsResponse := t.filterMap pageOf

/-- A page of delegations that was returned. -/
abbrev paged (status : BTCDelegationStatus) (pagination : PageRequest)
    (res : BTCDelegationsResponse) : Event bbnClient :=
  ⟨.btcDelegations status pagination, .ok res⟩

variable {lib : Lib} {bc : BabylonController}

/-- A call other than a submission sends nothing. -/
theorem sends_of_other {c : ClientCall} {u : RpcTrace} {r : Rpc c.Answer}
    (h : Prog.Steps (babylonController lib bc c) u r)
    (hc : ∀ covSigs, c ≠ .submitCovenantSigs covSigs) : sends u = [] := by
  apply List.filterMap_eq_nil_iff.mpr
  rintro ⟨c', a⟩ he
  have hissues := issues_of_mem h he
  cases c with
  | submitCovenantSigs covSigs => exact absurd rfl (hc covSigs)
  | _ =>
    cases c' with
    | reliablySendMsgs msgs => cases hissues
    | _ => rfl

/-- A call other than the query for pending delegations receives no page. -/
theorem pages_of_other {c : ClientCall} {u : RpcTrace} {r : Rpc c.Answer}
    (h : Prog.Steps (babylonController lib bc c) u r)
    (hc : ∀ limit, c ≠ .queryPendingDelegations limit) : pages u = [] := by
  apply List.filterMap_eq_nil_iff.mpr
  rintro ⟨c', a⟩ he
  have hissues := issues_of_mem h he
  cases c with
  | queryPendingDelegations limit => exact absurd rfl (hc limit)
  | _ =>
    cases c' with
    | btcDelegations status pagination => cases hissues
    | _ => rfl

theorem sends_of_call (c : ClientCall) (a : c.Answer) (u : RpcTrace)
    (h : Prog.Steps (babylonController lib bc c) u (.ret a)) :
    List.Forall₂ (fun l msgs => l.mapM (msgAddCovenantSigs lib bc) = .ok msgs)
      ([(⟨c, a⟩ : Event clientController)].filterMap submissionOf) (u.filterMap sendOf) := by
  cases c with
  | submitCovenantSigs covSigs =>
    rcases steps_submitCovenantSigs h with ⟨_, hne⟩ | ⟨msgs, res, r, hm, rfl, _⟩
    · exact absurd rfl (hne a)
    · exact .cons hm .nil
  | _ =>
    have hnil : u.filterMap sendOf = [] := sends_of_other h nofun
    rw [hnil]
    exact .nil

/-- A call that has not returned has not sent anything. -/
theorem sends_of_partial {c : ClientCall} {u : RpcTrace} {r : Rpc c.Answer}
    (h : Prog.Steps (babylonController lib bc c) u r) (hr : ∀ a, r ≠ .ret a) : sends u = [] := by
  cases c with
  | submitCovenantSigs covSigs =>
    rcases steps_submitCovenantSigs h with ⟨rfl, _⟩ | ⟨msgs, res, r', _, _, rfl⟩
    · rfl
    · exact absurd rfl (hr r')
  | _ => exact sends_of_other h nofun

/-- A page is only asked for by the query for pending delegations, and converted. -/
theorem pages_of_call (c : ClientCall) (a : c.Answer) (u : RpcTrace)
    (h : Prog.Steps (babylonController lib bc c) u (.ret a)) :
    List.Forall₂ (fun dels res => convertAll lib res.btcDelegations = .ok dels)
      ([(⟨c, a⟩ : Event clientController)].filterMap delegationsOf) (u.filterMap pageOf) := by
  cases c with
  | queryPendingDelegations limit =>
    rcases steps_queryDelegationsWithStatus h with ⟨_, hne⟩ | ⟨_, _, rfl, hq⟩ | ⟨res, rfl, hq⟩
    · exact absurd rfl (hne a)
    · cases hq
      exact .nil
    · rcases hq with ⟨x, _, hq⟩ | ⟨dels, hd, hq⟩
      · cases hq
      · cases hq
        exact .cons hd .nil
  | _ =>
    have hnil : u.filterMap pageOf = [] := pages_of_other h nofun
    rw [hnil]
    exact .nil

theorem steps_queryPendingDelegations_ok {limit : UInt64} {u : RpcTrace}
    {dels : Slice (Option Delegation)}
    (h : Prog.Steps (babylonController lib bc (.queryPendingDelegations limit)) u (.ret (.ok dels))) :
    ∃ res, u = [paged .pending ⟨none, limit⟩ res] ∧ convertAll lib res.btcDelegations = .ok dels := by
  rcases steps_queryDelegationsWithStatus h with ⟨_, hne⟩ | ⟨_, _, _, hq⟩ | ⟨res, rfl, hq⟩
  · exact absurd rfl (hne _)
  · cases hq
  · rcases hq with ⟨x, _, hq⟩ | ⟨dels', hd, hq⟩
    · cases hq
    · cases hq
      exact ⟨res, rfl, hd⟩

theorem steps_queryStakingParams_ok {u : RpcTrace} {p : StakingParams}
    (h : Prog.Steps (babylonController lib bc .queryStakingParams) u (.ret (.ok p))) :
    ∃ ckpt staking, u = [⟨.btcCheckpointParams, .ok ckpt⟩, ⟨.btcStakingParams, .ok staking⟩] ∧
      stakingParamsOf lib bc ckpt staking = .ok p := by
  rcases steps_queryStakingParams h with ⟨_, hne⟩ | ⟨_, _, _, hq⟩ | ⟨ckpt, ⟨_, hne⟩ | ⟨_, _, _, hq⟩ |
    ⟨staking, rfl, hq⟩⟩
  · exact absurd rfl (hne _)
  · cases hq
  · exact absurd rfl (hne _)
  · cases hq
  · exact ⟨ckpt, staking, rfl, (Prog.ret.inj hq).symm⟩

/-! ## Ticks -/

/-- The message is the member's signature on the record: the record converts to a
delegation that the member has not signed and that is signed now. -/
def Signs (lib : Lib) (bc : BabylonController) (ce : CovenantEmulator) (r : BTCDelegation)
    (m : MsgAddCovenantSigs) : Prop :=
  ∃ d s, convertDelegationType lib r = .ok d ∧ alreadySigned lib ce d = false ∧
    signDelegation lib ce (some d) = .ok (some s) ∧ msgAddCovenantSigs lib bc s = .ok m

theorem convertAll_eq_ok {dels : Slice BTCDelegation} {ds : Slice (Option Delegation)}
    (h : convertAll lib dels = .ok ds) :
    ∃ xs, dels.elems.mapM (convertDelegationType lib) = .ok xs ∧ ds.elems = xs.map some := by
  unfold convertAll at h
  split at h
  · cases h
  · rename_i xs hx
    cases h
    exact ⟨xs, hx, rfl⟩

/-- What is sent for a list of signatures, over several submissions. -/
theorem forall₂_flatten {ls : List (List CovenantSigs)} {ms : List (List MsgAddCovenantSigs)}
    (h : List.Forall₂ (fun l msgs => l.mapM (msgAddCovenantSigs lib bc) = .ok msgs) ls ms) :
    List.Forall₂ (fun s m => msgAddCovenantSigs lib bc s = .ok m) ls.flatten ms.flatten :=
  List.rel_flatten (h.imp fun _ _ hm => mapM_eq_ok_iff.mp hm)

/-- From the records of a page to the messages that are sent. -/
theorem signs_of_signed {ce : CovenantEmulator} {page : Slice BTCDelegation}
    {dels : Slice (Option Delegation)} {ds xs : List Delegation} {sigs : List CovenantSigs}
    {msgs : List MsgAddCovenantSigs} (hconv : convertAll lib page = .ok dels)
    (hds : dels.elems = ds.map some) (hxs : xs.Sublist (unsigned lib ce ds))
    (hf : List.Forall₂ (fun d s => signDelegation lib ce (some d) = .ok (some s)) xs sigs)
    (hmsgs : List.Forall₂ (fun s m => msgAddCovenantSigs lib bc s = .ok m) sigs msgs) :
    ∃ rs, rs.Sublist page.elems ∧ List.Forall₂ (Signs lib bc ce) rs msgs := by
  obtain ⟨ys, hys, heq⟩ := convertAll_eq_ok hconv
  have hy : ds = ys := List.map_injective_iff.mpr (fun _ _ h => Option.some.inj h) (hds.symm.trans heq)
  rw [← hy] at hys
  have hsub : xs.Sublist ds := hxs.trans List.filter_sublist
  obtain ⟨rs, hrs, hconvs⟩ := forall₂_of_sublist (mapM_eq_ok_iff.mp hys) hsub
  have hun : ∀ d ∈ xs, alreadySigned lib ce d = false := by
    intro d hd
    have := (List.mem_filter.mp (hxs.subset hd)).2
    simpa using this
  have hsigned := List.forall₂_and_left xs sigs |>.mpr ⟨hun, hf⟩
  have hall := forall₂_trans (forall₂_trans hconvs hsigned) hmsgs
  refine ⟨rs, hrs, hall.imp ?_⟩
  rintro r m ⟨s, ⟨d, hd, hu, hs⟩, hm⟩
  exact ⟨d, s, hd, hu, hs, hm⟩

/-- What a tick read before it sent anything, and the records it signed. -/
structure Sent (lib : Lib) (bc : BabylonController) (ce : CovenantEmulator) (t : RpcTrace)
    (ckpt : BTCCheckpointParams) (staking : BTCStakingParams) (p : StakingParams)
    (res : BTCDelegationsResponse) (rs : List BTCDelegation) : Prop where
  ckpt_mem : ⟨.btcCheckpointParams, .ok ckpt⟩ ∈ t
  staking_mem : ⟨.btcStakingParams, .ok staking⟩ ∈ t
  params_eq : stakingParamsOf lib bc ckpt staking = .ok p
  page_mem : paged .pending ⟨none, ce.config.delegationLimit⟩ res ∈ t
  page_only : pages t = [res]
  sublist : rs.Sublist res.btcDelegations.elems
  signs : List.Forall₂ (Signs lib bc (withParams ce p)) rs (sends t).flatten

/-- A tick that has submitted does not query the delegations again. -/
theorem not_querying {ce : CovenantEmulator} {s : ClientTrace} {limit : UInt64}
    {k : Except GoError (Slice (Option Delegation)) → Client CovenantEmulator}
    (hs : Prog.Steps (tick lib ce) s (.call (.queryPendingDelegations limit) k)) :
    submissions s = [] := by
  have hnext : Prog.Steps (tick lib ce) (s ++ [⟨.queryPendingDelegations limit, .error ""⟩])
      (k (.error "")) :=
    hs.trans (.call (I := clientController) (c := .queryPendingDelegations limit) (.error "") (.refl _))
  have hmem : (⟨.queryPendingDelegations limit, .error ""⟩ : Event clientController) ∈
      s ++ [⟨.queryPendingDelegations limit, .error ""⟩] := by simp
  have hend := ((steps_tick hnext).unqueried_end hmem).1
  unfold submissions at hend ⊢
  rw [List.filterMap_append] at hend
  exact (List.append_eq_nil_iff.mp hend).1

/-- **Ticks of a member.** Whatever a tick sends are its signatures on some of the records
of the page it queried, in order, under the parameters it fetched. -/
theorem memberTick_sends {ce : CovenantEmulator} {t : RpcTrace} {q : Rpc CovenantEmulator}
    (h : Prog.Steps (memberTick lib bc ce) t q) :
    sends t = [] ∨ ∃ ckpt staking p res rs, Sent lib bc ce t ckpt staking p res rs := by
  obtain ⟨s, p', t₁, t₂, rfl, hs, hcar, hlast⟩ := Prog.steps_interp h
  have hsends : sends (t₁ ++ t₂) = sends t₁ := by
    have hnil : sends t₂ = [] := by
      rcases hlast with ⟨rfl, _⟩ | ⟨c, k, r, _, hr, hne, _⟩
      · rfl
      · exact sends_of_partial hr hne
    unfold sends at hnil ⊢
    rw [List.filterMap_append, hnil, List.append_nil]
  have hmsgs : List.Forall₂ _ (submissions s) (sends t₁) := hcar.filterMap sends_of_call
  rw [hsends]
  rcases (steps_tick hs).signed with hnil | ⟨p, dels, ds, xs, hp, hd, honly, hds, hxs, hf⟩
  · rw [hnil] at hmsgs
    exact Or.inl (List.forall₂_nil_left_iff.mp hmsgs)
  · by_cases hnil : submissions s = []
    · rw [hnil] at hmsgs
      exact Or.inl (List.forall₂_nil_left_iff.mp hmsgs)
    · obtain ⟨u, hu, hut⟩ := hcar.run_of_mem hp
      obtain ⟨ckpt, staking, rfl, hpar⟩ := steps_queryStakingParams_ok hu
      obtain ⟨v, hv, hvt⟩ := hcar.run_of_mem hd
      obtain ⟨res, rfl, hconv⟩ := steps_queryPendingDelegations_ok hv
      obtain ⟨rs, hrs, hsigns⟩ := signs_of_signed hconv hds hxs hf (forall₂_flatten hmsgs)
      refine Or.inr ⟨ckpt, staking, p, res, rs, ?_, ?_, hpar, ?_, ?_, hrs, hsends.symm ▸ hsigns⟩
      · exact List.mem_append_left _ (hut _ (by simp))
      · exact List.mem_append_left _ (hut _ (by simp))
      · exact List.mem_append_left _ (hvt _ (by simp))
      · have hpages : List.Forall₂ _ (s.filterMap delegationsOf) (pages t₁) :=
          hcar.filterMap pages_of_call
        have hnone : pages t₂ = [] := by
          rcases hlast with ⟨rfl, _⟩ | ⟨c, k, r, rfl, hr, _, _⟩
          · rfl
          · apply pages_of_other hr
            rintro limit rfl
            exact hnil (not_querying hs)
        have hres : res ∈ pages t₁ := List.mem_filterMap.mpr ⟨_, hvt _ (List.mem_singleton_self _), rfl⟩
        rw [honly] at hpages
        obtain ⟨res', rest, _, hrest, hone⟩ := List.forall₂_cons_left_iff.mp hpages
        rw [List.forall₂_nil_left_iff.mp hrest] at hone
        rw [hone] at hres
        rw [List.mem_singleton.mp hres]
        unfold pages at hone hnone ⊢
        rw [List.filterMap_append, hone, hnone, List.append_nil]

/-- A tick changes nothing of the member but the parameters. -/
theorem withParams_of_tick {ce ce' : CovenantEmulator} {t : RpcTrace}
    (h : Prog.Steps (memberTick lib bc ce) t (.ret ce')) (p : StakingParams) :
    withParams ce' p = withParams ce p := by
  obtain ⟨s, hs, _⟩ := Prog.steps_interp_ret h
  rcases (steps_tick hs).ret_eq rfl with rfl | ⟨params, rfl⟩ <;> rfl

end Covenant.Member
