import Credence.Ingestion.Listener

/-! The documented ingestion lifecycle as a machine of its own, and the listener against it. The
repository enters a new node as `pending`, which the lifecycle does not have. -/

namespace Credence.Ingestion

open Js Option

inductive EventKind where
  | bond
  | slash
  | withdrawal

/-- The state after an event, by the table of legal transitions, with redeliveries in the state an
event leads to; `none` where it is rejected. -/
def lifecycle : EventKind → Option HorizonIngestionState → Option HorizonIngestionState
  | .bond, none | .bond, some .active => some .active
  | .bond, some _ => none
  | .slash, some .active | .slash, some .slashed => some .slashed
  | .slash, _ => none
  | .withdrawal, none => none
  | .withdrawal, some _ => some .withdrawn

/-- The states of all nodes; `none` for a node that is unknown. -/
abbrev Lifecycle := String → Option HorizonIngestionState

/-- The node and the kind of a bond, slash or withdrawal event that has its fields. -/
def HorizonEvent.demand (event : HorizonEvent) : Option (String × EventKind) :=
  (present event.nodeId).bind fun nodeId =>
    if event.type = "bond" then
      (present event.amount).bind fun amount =>
        if trim amount.toList = [] then none else some (nodeId, .bond)
    else if event.type = "slash" then (present event.penalty).map fun _ => (nodeId, .slash)
    else if event.type = "withdrawal" then some (nodeId, .withdrawal)
    else none

def Lifecycle.next (states : Lifecycle) (event : HorizonEvent) : Lifecycle :=
  match event.demand with
  | none => states
  | some (nodeId, kind) =>
    match lifecycle kind (states nodeId) with
    | none => states
    | some state => Function.update states nodeId (some state)

def Agrees (nodes : Repository) (states : Lifecycle) : Prop :=
  ∀ nodeId, nodeId ≠ "" →
    Repository.getNodeStatus nodeId nodes = .ok ((states nodeId).map HorizonIngestionState.text)

/-- The listener does what the machine does: an accepted event is handled, and changes nothing when
a slash or withdrawal is redelivered; a rejected one throws the transition error and changes
nothing, like an event without its fields. -/
def Handles (event : HorizonEvent) (nodes : Repository) (states : Lifecycle) : Prop :=
  match event.demand with
  | none => (handleEvent event nodes).2 = nodes
  | some (nodeId, kind) =>
    match lifecycle kind (states nodeId) with
    | none =>
      (∃ e, (handleEvent event nodes).1 = .error (.transition e)) ∧
        (handleEvent event nodes).2 = nodes
    | some state =>
      (handleEvent event nodes).1 = .ok () ∧
        (kind ≠ .bond → states nodeId = some state → (handleEvent event nodes).2 = nodes)

/-- The repository and the machine agree before and after every event of a sequence. -/
def Refines : List HorizonEvent → Repository → Lifecycle → Prop
  | [], nodes, states => Agrees nodes states
  | event :: events, nodes, states =>
    Agrees nodes states ∧ Handles event nodes states ∧
      Refines events (handleEvent event nodes).2 (states.next event)

def HorizonEvent.isBond (event : HorizonEvent) : Bool :=
  match event.demand with
  | some (_, .bond) => true
  | _ => false

def unknown : Lifecycle := fun _ => none

theorem present_ne_empty {field : Option String} {text : String} (h : present field = some text) :
    text ≠ "" := by
  simpa using (filter_eq_some_iff.mp h).2

theorem agrees_empty : Agrees [] unknown := by
  intro nodeId hn
  simp [Repository.getNodeStatus, hn, Map.get, unknown]

variable {nodeId : String} {event : HorizonEvent}

inductive Calls (event : HorizonEvent) : String → EventKind → Prop
  | bond (nodeId amount : String) (hNode : nodeId ≠ "") (hAmount : trim amount.toList ≠ [])
      (hCalls : ∀ nodes, handleEvent event nodes =
        ((Repository.upsertNode nodeId amount nodes).1.map fun _ => (),
          (Repository.upsertNode nodeId amount nodes).2)) : Calls event nodeId .bond
  | slash (nodeId : String) (penalty : Option String) (hNode : nodeId ≠ "")
      (hCalls : ∀ nodes, handleEvent event nodes =
        applyTransition nodeId .slashed event.type penalty nodes) : Calls event nodeId .slash
  | withdrawal (nodeId : String) (hNode : nodeId ≠ "")
      (hCalls : ∀ nodes, handleEvent event nodes =
        applyTransition nodeId .withdrawn event.type none nodes) : Calls event nodeId .withdrawal

theorem calls_of_demand {kind : EventKind} (h : event.demand = some (nodeId, kind)) :
    Calls event nodeId kind := by
  obtain ⟨node, hr, hk⟩ := bind_eq_some_iff.mp h
  have hn := present_ne_empty hr
  split at hk
  · next ht =>
    obtain ⟨amount, ha, hs⟩ := bind_eq_some_iff.mp hk
    obtain ⟨hb, hp⟩ := ite_none_left_eq_some.mp hs
    cases hp
    exact .bond nodeId amount hn hb fun nodes => by
      simp [handleEvent, hr, ht, ha]
  · split at hk
    · next ht =>
      obtain ⟨penalty, he, hp⟩ := map_eq_some_iff.mp hk
      cases hp
      exact .slash nodeId (some penalty) hn fun nodes => by
        simp [handleEvent, hr, ht, he]
    · obtain ⟨ht, hp⟩ := ite_none_right_eq_some.mp hk
      cases hp
      exact .withdrawal nodeId hn fun nodes => by simp [handleEvent, hr, ht]

theorem handleEvent_of_no_demand (h : event.demand = none) (nodes : Repository) :
    (handleEvent event nodes).2 = nodes := by
  unfold handleEvent
  cases hp : present event.nodeId with
  | none => rfl
  | some =>
    rw [HorizonEvent.demand, hp, bind_some] at h
    by_cases hb : event.type = "bond"
    · rw [if_pos hb] at h
      cases ha : present event.amount with
      | none => simp [hb]
      | some amount =>
        rw [ha, bind_some] at h
        have hl : trim amount.toList = [] := by
          by_contra hn
          rw [if_neg hn] at h
          cases h
        simp [hb, Repository.upsertNode, present_ne_empty hp, hl]
    · rw [if_neg hb] at h
      by_cases hs : event.type = "slash"
      · rw [if_pos hs, map_eq_none_iff] at h
        simp [hs, h]
      · rw [if_neg hs] at h
        have ho : event.type ≠ "withdrawal" := by
          intro ht
          rw [if_pos ht] at h
          cases h
        by_cases he : event.type = ""
        · simp [he]
        · simp [he, hb, hs, ho]

theorem handles_empty (h : event.isBond = false) :
    Handles event [] unknown ∧ (handleEvent event []).2 = [] ∧ unknown.next event = unknown := by
  cases hd : event.demand with
  | none =>
    have hs := handleEvent_of_no_demand hd []
    exact ⟨by simpa [Handles, hd] using hs, hs, by simp [Lifecycle.next, hd]⟩
  | some demand =>
    obtain ⟨nodeId, kind⟩ := demand
    cases calls_of_demand hd with
    | bond => simp [HorizonEvent.isBond, hd] at h
    | slash penalty hn hc | withdrawal hn hc =>
      simp [Handles, Lifecycle.next, hd, lifecycle, unknown, hc, applyTransition,
        isAppliedTransition, Repository.getNodeStatus, hn, Map.get, resolveIngestionTransition]

theorem not_agrees_after_bond (h : event.isBond = true) :
    ¬ Agrees (handleEvent event []).2 (unknown.next event) := by
  cases hd : event.demand with
  | none => simp [HorizonEvent.isBond, hd] at h
  | some demand =>
    obtain ⟨nodeId, kind⟩ := demand
    cases calls_of_demand hd with
    | slash | withdrawal => simp [HorizonEvent.isBond, hd] at h
    | bond amount hn ha hc =>
      intro hg
      have hs := hg nodeId hn
      simp [hc, Repository.upsertNode, Repository.getNodeStatus, hn, ha, Map.get,
        Map.set, Lifecycle.next, hd, lifecycle, unknown, NodeStatus.text,
        HorizonIngestionState.text] at hs

theorem Refines.agrees {events : List HorizonEvent} {nodes : Repository} {states : Lifecycle}
    (h : Refines events nodes states) : Agrees nodes states := by
  cases events with
  | nil => exact h
  | cons => exact h.1

/-- The listener refines the documented machine on exactly the sequences without a bond event. -/
theorem refines_iff_no_bond (events : List HorizonEvent) :
    Refines events [] unknown ↔ ∀ event ∈ events, event.isBond = false := by
  induction events with
  | nil => simpa [Refines] using agrees_empty
  | cons event events ih =>
    rw [List.forall_mem_cons]
    cases hb : event.isBond with
    | true =>
      refine iff_of_false (fun hr => ?_) (by simp)
      exact not_agrees_after_bond hb hr.2.2.agrees
    | false =>
      obtain ⟨hh, hn, hs⟩ := handles_empty hb
      rw [Refines, hn, hs, ih]
      simp [hh, agrees_empty]

def bondEvent : HorizonEvent := ⟨"bond", some "node-1", some "1000", none, none⟩

def slashEvent : HorizonEvent := ⟨"slash", some "node-1", none, some "50", none⟩

/-- A slash of a node that has just bonded is rejected, and the node stays pending. -/
theorem slash_after_bond_rejected : let bonded := (handleEvent bondEvent []).2
    Repository.getNodeStatus "node-1" bonded = .ok (some "pending") ∧
      handleEvent slashEvent bonded = (.error (.transition
          ⟨.invalidStateTransition, "node-1", "slash", some "pending", .slashed⟩), bonded) ∧
      lifecycle .slash (lifecycle .bond none) = some .slashed ∧
      ¬ Refines [bondEvent, slashEvent] [] unknown := by
  refine ⟨by decide +kernel, by decide +kernel, rfl, fun hr => ?_⟩
  exact not_agrees_after_bond (by decide +kernel) hr.2.2.agrees

end Credence.Ingestion
