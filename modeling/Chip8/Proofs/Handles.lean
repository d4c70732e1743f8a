import Chip8.Machine.Host
import Chip8.Proofs.KeyQueue
import Mathlib.Data.List.Nodup

/-!
# The handles to a queue

All handles to the queue of a machine, also those that are clones of others, are at the place of that queue, and no
other handle is (`Host.Separate.owner?_eq_some_iff`).  So a push through a handle is the command `enqueue` for the
machine that the handle was taken from, whatever was done with the machine since then, and nothing for any other one.  A
ledger that only notes which machine a handle was taken from, and which commands a machine was given, knows the machines
of a host and their queues (`Host.handles_share_queues`).
-/

namespace Chip8

/-- How a machine was created, and the commands since then. -/
structure Account where
  timing : Timing
  random : ByteSupply
  commands : List Command := []

namespace Account

def machine (account : Account) : Machine :=
  (Machine.create account.timing account.random).machine.after account.commands

def add (account : Account) (command : Command) : Account :=
  { account with commands := account.commands ++ [command] }

theorem machine_add (account : Account) (command : Command) :
    (account.add command).machine = (account.machine.perform command).machine :=
  Machine.after_append _ account.commands [command]

end Account

/-- The account of each machine of a host, and the origin of each handle. -/
structure Ledger where
  accounts : List Account := []
  /-- The machine that each handle was taken from, if any. -/
  origins : List (Option Nat) := []

namespace Ledger

def machines (ledger : Ledger) : List Machine := ledger.accounts.map Account.machine

def enter (ledger : Ledger) (number : Nat) (command : Command) : Ledger :=
  { ledger with accounts := ledger.accounts.modify number (·.add command) }

def note (ledger : Ledger) : Host.Action → Ledger
  | .create timing random => { ledger with accounts := ledger.accounts ++ [{ timing, random }] }
  | .queue => { ledger with origins := ledger.origins ++ [none] }
  | .handle number =>
    if number < ledger.accounts.length then { ledger with origins := ledger.origins ++ [some number] } else ledger
  | .clone handle => { ledger with origins := ledger.origins ++ ledger.origins[handle]?.toList }
  | .push handle event =>
    match ledger.origins[handle]? with
    | some (some number) => ledger.enter number (.enqueue [event])
    | _ => ledger
  | .perform number command => ledger.enter number command

def after (ledger : Ledger) (actions : List Host.Action) : Ledger :=
  actions.foldl note ledger

theorem machines_enter (ledger : Ledger) (number : Nat) (command : Command) :
    (ledger.enter number command).machines =
      ledger.machines.modify number fun machine => (machine.perform command).machine := by
  apply List.ext_getElem?
  intro other
  simp only [machines, enter, List.getElem?_map, List.getElem?_modify, Option.map_eq_map, Option.map_map]
  congr 1
  funext account
  by_cases h : number = other
  · simp only [Function.comp_apply, if_pos h, Account.machine_add]
  · simp only [Function.comp_apply, if_neg h]

end Ledger

namespace Host

/-! ### Places -/

/-- The machine whose queue is at the place. -/
def owner? (host : Host) (place : Nat) : Option Nat := host.places.idxOf? place

theorem getElem?_places {host : Host} {number : Nat} {tenant : Tenant} (h : host.tenants[number]? = some tenant) :
    host.places[number]? = some tenant.place := by
  rw [places, List.getElem?_map, h, Option.map_some]

theorem places_put {host : Host} {number place : Nat} (h : host.places[number]? = some place) (machine : Machine) :
    (host.put number place machine).places = host.places := by
  obtain ⟨hn, he⟩ := List.getElem?_eq_some_iff.1 h
  rw [places, put, List.map_set, ← he]
  exact List.set_getElem_self hn

theorem view_fill (host : Host) (place : Nat) (events : List KeyEvent) (tenant : Tenant) :
    (host.fill place events).view tenant =
      if tenant.place = place then { tenant.machine with pending := events } else host.view tenant := by
  simp only [view, fill, Function.update_apply]
  split <;> rfl

theorem machines_fill_of_notMem {host : Host} {place : Nat} (h : place ∉ host.places) (events : List KeyEvent) :
    (host.fill place events).machines = host.machines := by
  refine List.map_congr_left fun tenant ht => ?_
  rw [view_fill, if_neg]
  rintro rfl
  exact h (List.mem_map_of_mem ht)

private theorem forall_mem_append_lt_succ {places : List Nat} {free : Nat} (h : ∀ place ∈ places, place < free) :
    ∀ place ∈ places ++ [free], place < free + 1 :=
  List.forall_mem_append.2
    ⟨fun place hm => Nat.lt_succ_of_lt (h place hm), List.forall_mem_singleton.2 (Nat.lt_succ_self free)⟩

/-- Every queue is at a place of its own. -/
structure Separate (host : Host) : Prop where
  distinct : host.places.Nodup
  place_lt : ∀ place ∈ host.places, place < host.free
  handle_lt : ∀ place ∈ host.handles, place < host.free

section Separate

variable {host : Host} (h : host.Separate)

include h

theorem Separate.owner?_eq_some_iff {place number : Nat} :
    host.owner? place = some number ↔ host.places[number]? = some place := by
  rw [owner?, List.idxOf?_eq_some_iff, List.getElem?_eq_some_iff]
  constructor
  · rintro ⟨hn, he, -⟩
    exact ⟨hn, he⟩
  · rintro ⟨hn, he⟩
    refine ⟨hn, he, fun other ho hother => ?_⟩
    exact absurd ((List.getElem_inj h.distinct).1 (hother.trans he.symm)) (Nat.ne_of_lt ho)

theorem Separate.free_notMem_places : host.free ∉ host.places :=
  fun hm => Nat.lt_irrefl _ (h.place_lt _ hm)

theorem Separate.act (action : Action) : (host.act action).Separate := by
  cases action with
  | create timing random =>
    have hplaces : (host.act (.create timing random)).places = host.places ++ [host.free] := List.map_append
    refine ⟨?distinct, ?place_lt, fun place hm => Nat.lt_succ_of_lt (h.handle_lt place hm)⟩
    case distinct =>
      rw [hplaces, List.nodup_append_comm]
      exact List.nodup_cons.2 ⟨h.free_notMem_places, h.distinct⟩
    case place_lt =>
      rw [hplaces]
      exact forall_mem_append_lt_succ h.place_lt
  | queue =>
    exact ⟨h.distinct, fun place hm => Nat.lt_succ_of_lt (h.place_lt place hm), forall_mem_append_lt_succ h.handle_lt⟩
  | handle number =>
    have hnew : ∀ place ∈ host.places[number]?.toList, place < host.free :=
      fun place hm => h.place_lt place (List.mem_of_getElem? (Option.mem_toList.1 hm))
    exact ⟨h.distinct, h.place_lt, List.forall_mem_append.2 ⟨h.handle_lt, hnew⟩⟩
  | clone handle =>
    have hnew : ∀ place ∈ host.handles[handle]?.toList, place < host.free :=
      fun place hm => h.handle_lt place (List.mem_of_getElem? (Option.mem_toList.1 hm))
    exact ⟨h.distinct, h.place_lt, List.forall_mem_append.2 ⟨h.handle_lt, hnew⟩⟩
  | push handle event =>
    rw [Host.act]
    cases host.handles[handle]? <;> exact ⟨h.distinct, h.place_lt, h.handle_lt⟩
  | perform number command =>
    rw [Host.act]
    cases ht : host.tenants[number]? with
    | none => exact h
    | some tenant =>
      have hplaces := places_put (getElem?_places ht) ((host.view tenant).perform command).machine
      exact ⟨hplaces ▸ h.distinct, hplaces ▸ h.place_lt, h.handle_lt⟩

theorem Separate.eq_of_place_eq {number other place : Nat} (hn : host.places[number]? = some place)
    (ho : host.places[other]? = some place) : number = other := by
  rw [← h.owner?_eq_some_iff] at hn ho
  exact Option.some.inj (hn.symm.trans ho)

/-- A change of a queue is one of the machine whose queue it is, and of no other. -/
theorem Separate.machines_fill {number place : Nat} (hp : host.places[number]? = some place)
    (f : List KeyEvent → List KeyEvent) :
    (host.fill place (f (host.queues place))).machines =
      host.machines.modify number fun machine => { machine with pending := f machine.pending } := by
  apply List.ext_getElem?
  intro other
  have htenants : (host.fill place (f (host.queues place))).tenants[other]? = host.tenants[other]? := rfl
  rw [List.getElem?_modify, machines, machines, List.getElem?_map, List.getElem?_map, htenants]
  cases ht : host.tenants[other]? with
  | none => rfl
  | some tenant =>
    have hother := getElem?_places ht
    rw [Option.map_some, Option.map_some, Option.map_eq_map, Option.map_some, view_fill]
    by_cases he : number = other
    · subst he
      cases hother.symm.trans hp
      rw [if_pos rfl, if_pos rfl]
      rfl
    · rw [if_neg he, if_neg]
      rintro rfl
      exact he (h.eq_of_place_eq hp hother)

theorem Separate.machines_put {number place : Nat} (hp : host.places[number]? = some place) (machine : Machine) :
    (host.put number place machine).machines = host.machines.set number machine := by
  have hview : (host.fill place machine.pending).view ⟨machine, place⟩ = machine := by
    rw [view_fill, if_pos rfl]
  calc (host.put number place machine).machines
    _ = (host.fill place machine.pending).machines.set number machine := by
      change (host.tenants.set number ⟨machine, place⟩).map (host.fill place machine.pending).view = _
      rw [List.map_set, hview]
      rfl
    _ = host.machines.set number machine := by
      rw [h.machines_fill hp fun _ => machine.pending, List.set_eq_modify, List.modify_modify_eq, List.set_eq_modify]
      rfl

end Separate

/-! ### The ledger of a host -/

/-- The ledger knows the machines of the host, and whose queue each handle is at. -/
structure Follows (host : Host) (ledger : Ledger) : Prop where
  separate : host.Separate
  machines_eq : host.machines = ledger.machines
  origins_eq : host.handles.map host.owner? = ledger.origins

section Follows

variable {host : Host} {ledger : Ledger} (h : host.Follows ledger)

include h

theorem Follows.length_eq : host.tenants.length = ledger.accounts.length := by
  have hlength := congrArg List.length h.machines_eq
  rwa [machines, Ledger.machines, List.length_map, List.length_map] at hlength

theorem Follows.create (timing : Timing) (random : ByteSupply) :
    (host.act (.create timing random)).Follows (ledger.note (.create timing random)) := by
  have hseparate := h.separate.act (.create timing random)
  have hplaces : (host.act (.create timing random)).places = host.places ++ [host.free] := List.map_append
  refine ⟨hseparate, ?machines, ?origins⟩
  case machines =>
    change List.map (host.fill host.free []).view (host.tenants ++ [⟨_, host.free⟩]) = _
    rw [List.map_append, List.map_singleton, view_fill, if_pos rfl]
    change (host.fill host.free []).machines ++ _ = _
    rw [machines_fill_of_notMem h.separate.free_notMem_places, h.machines_eq, Ledger.machines, Ledger.machines,
      Ledger.note, List.map_append]
    rfl
  case origins =>
    refine (List.map_congr_left fun place hm => ?_).trans h.origins_eq
    have hne : host.free ≠ place := Nat.ne_of_gt (h.separate.handle_lt place hm)
    have hnone : [host.free].findIdx? (· == place) = none := by simpa using hne
    rw [owner?, owner?, hplaces, List.idxOf?, List.findIdx?_append, hnone, Option.map_none, Option.or_none]

theorem Follows.queue : (host.act .queue).Follows (ledger.note .queue) := by
  refine ⟨h.separate.act .queue, ?machines, ?origins⟩
  case machines => exact (machines_fill_of_notMem h.separate.free_notMem_places _).trans h.machines_eq
  case origins =>
    have hnone : host.owner? host.free = none := List.idxOf?_eq_none_iff.2 h.separate.free_notMem_places
    change (host.handles ++ [host.free]).map host.owner? = _
    rw [List.map_append, List.map_singleton, hnone, h.origins_eq]
    rfl

theorem Follows.handle (number : Nat) : (host.act (.handle number)).Follows (ledger.note (.handle number)) := by
  refine ⟨h.separate.act (.handle number), ?machines, ?origins⟩
  case machines =>
    rw [Ledger.note]
    split <;> exact h.machines_eq
  case origins =>
    have hlength : host.places.length = ledger.accounts.length := by
      rw [places, List.length_map, h.length_eq]
    change (host.handles ++ host.places[number]?.toList).map host.owner? = _
    rw [Ledger.note, List.map_append, h.origins_eq]
    split
    case isTrue hn =>
      have hp := List.getElem?_eq_getElem (hlength ▸ hn : number < host.places.length)
      rw [hp, Option.toList_some, List.map_singleton, h.separate.owner?_eq_some_iff.2 hp]
    case isFalse hn =>
      rw [List.getElem?_eq_none (by omega)]
      exact List.append_nil _

theorem Follows.clone (handle : Nat) : (host.act (.clone handle)).Follows (ledger.note (.clone handle)) := by
  refine ⟨h.separate.act (.clone handle), h.machines_eq, ?_⟩
  change (host.handles ++ host.handles[handle]?.toList).map host.owner? =
    ledger.origins ++ ledger.origins[handle]?.toList
  rw [List.map_append, ← Option.toList_map, ← List.getElem?_map, h.origins_eq]

theorem Follows.push (handle : Nat) (event : KeyEvent) :
    (host.act (.push handle event)).Follows (ledger.note (.push handle event)) := by
  have hseparate := h.separate.act (.push handle event)
  have horigin : ledger.origins[handle]? = host.handles[handle]?.map host.owner? := by
    rw [← h.origins_eq, List.getElem?_map]
  rw [act] at hseparate ⊢
  rw [Ledger.note, horigin]
  cases hp : host.handles[handle]? with
  | none => exact h
  | some place =>
    rw [hp] at hseparate
    rw [Option.map_some]
    cases ho : host.owner? place with
    | none =>
      exact ⟨hseparate, (machines_fill_of_notMem (List.idxOf?_eq_none_iff.1 ho) _).trans h.machines_eq, h.origins_eq⟩
    | some number =>
      refine ⟨hseparate, ?_, h.origins_eq⟩
      have hplace := h.separate.owner?_eq_some_iff.1 ho
      rw [Ledger.machines_enter, ← h.machines_eq]
      exact h.separate.machines_fill hplace (· ++ [event])

theorem Follows.perform (number : Nat) (command : Command) :
    (host.act (.perform number command)).Follows (ledger.note (.perform number command)) := by
  have hseparate := h.separate.act (.perform number command)
  rw [act] at hseparate ⊢
  rw [Ledger.note]
  cases ht : host.tenants[number]? with
  | none =>
    have hlength : ledger.machines.length ≤ number := by
      rw [Ledger.machines, List.length_map, ← h.length_eq]
      exact List.getElem?_eq_none_iff.1 ht
    refine ⟨h.separate, ?_, h.origins_eq⟩
    rw [Ledger.machines_enter, List.modify_eq_self hlength, h.machines_eq]
  | some tenant =>
    rw [ht] at hseparate
    have hplace := getElem?_places ht
    have hmachine : host.machines[number]? = some (host.view tenant) := by
      rw [machines, List.getElem?_map, ht, Option.map_some]
    refine ⟨hseparate, ?machines, ?origins⟩
    case machines =>
      rw [Ledger.machines_enter, ← h.machines_eq, List.modify_eq_set_getElem?, hmachine]
      exact h.separate.machines_put hplace _
    case origins =>
      refine (List.map_congr_left fun place _ => ?_).trans h.origins_eq
      rw [owner?, places_put hplace]
      rfl

theorem Follows.act (action : Action) : (host.act action).Follows (ledger.note action) := by
  cases action with
  | create timing random => exact h.create timing random
  | queue => exact h.queue
  | handle number => exact h.handle number
  | clone handle => exact h.clone handle
  | push handle event => exact h.push handle event
  | perform number command => exact h.perform number command

theorem Follows.after (actions : List Action) : (host.after actions).Follows (ledger.after actions) := by
  induction actions generalizing host ledger with
  | nil => exact h
  | cons action rest ih => exact ih (h.act action)

theorem Follows.origins_eq_some_iff {handle number : Nat} :
    ledger.origins[handle]? = some (some number) ↔
      ∃ place, host.handles[handle]? = some place ∧ host.places[number]? = some place := by
  rw [← h.origins_eq, List.getElem?_map, Option.map_eq_some_iff]
  simp only [h.separate.owner?_eq_some_iff]

theorem Follows.queues_eq {number place : Nat} (hp : host.places[number]? = some place) :
    ∃ account, ledger.accounts[number]? = some account ∧ host.queues place = Command.queued account.commands := by
  obtain ⟨tenant, ht, rfl⟩ := Option.map_eq_some_iff.1 ((List.getElem?_map ..).symm.trans hp)
  have hmachine := congrArg (·[number]?) h.machines_eq
  simp only [machines, Ledger.machines, List.getElem?_map, ht, Option.map_some] at hmachine
  obtain ⟨account, ha, hview⟩ := Option.map_eq_some_iff.1 hmachine.symm
  have hpending : account.machine.pending = Command.queued account.commands := Machine.pending_after rfl _
  exact ⟨account, ha, (congrArg Machine.pending hview.symm).trans hpending⟩

end Follows

theorem follows_empty : ({} : Host).Follows {} :=
  ⟨⟨List.nodup_nil, nofun, nofun⟩, rfl, rfl⟩

/-- Whatever is done with machines and handles, also when machines are reset and loaded, every machine is what its own
commands make of it, where a push through a handle counts as a command of the machine that the handle was taken from, if
any.  A handle is at the place of the queue of this machine, and at that of no other.  The queue holds what the commands
and such handles pushed since the machine drained it last. -/
theorem handles_share_queues (actions : List Action) :
    let host := ({} : Host).after actions
    let ledger := ({} : Ledger).after actions
    host.machines = ledger.accounts.map Account.machine ∧
      (∀ handle number : Nat, ledger.origins[handle]? = some (some number) ↔
        ∃ place : Nat, host.handles[handle]? = some place ∧ host.places[number]? = some place) ∧
      (∀ number place : Nat, host.places[number]? = some place →
        ∃ account : Account, ledger.accounts[number]? = some account ∧
          host.queues place = Command.queued account.commands) ∧
      ∀ (handle number : Nat) (account : Account), ledger.origins[handle]? = some (some number) →
        ledger.accounts[number]? = some account →
          host.isEmpty? handle = some (Command.queued account.commands).isEmpty := by
  intro host ledger
  have h : host.Follows ledger := follows_empty.after actions
  refine ⟨h.machines_eq, fun _ _ => h.origins_eq_some_iff, fun _ _ => h.queues_eq, ?empty⟩
  case empty =>
    intro handle number account ho ha
    obtain ⟨place, hh, hp⟩ := h.origins_eq_some_iff.1 ho
    obtain ⟨other, hother, hqueue⟩ := h.queues_eq hp
    cases ha.symm.trans hother
    rw [isEmpty?, hh, Option.map_some, hqueue]

example :
    let actions : List Action :=
      [.create .perStep {}, .handle 0, .clone 0, .perform 0 .reset, .push 1 ⟨3, true⟩, .queue, .push 2 ⟨4, true⟩]
    (({} : Host).after actions).machines.map Machine.pending = [[⟨3, true⟩]] := by
  decide +kernel

end Host

end Chip8
