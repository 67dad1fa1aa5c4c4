import AutoTest.ReleaseLedgers
import AutoTest.ResourceSteps

/-!
# What is allocated, and who can release it

The resources of the C heap: bases, listeners, bufferevents and buffers. Each function of the
interface changes what is allocated by what its calls create and release. The fields of the
interface and the local variables of its workers are the only places from which a resource can
be released later.
-/

namespace AutoTest

open OutputMachines ReleaseLedgers ThreadPools

variable {ι : Type*}

inductive Resource
  | base (h : Handle)
  | listener (h : Handle)
  | bufferevent (h : Handle)
  | buffer (h : Handle)
  deriving DecidableEq

namespace Resource

def handle : Resource → Handle
  | .base h | .listener h | .bufferevent h | .buffer h => h

/-- The resource that a pointer variable refers to, if it is not `NULL`. -/
def atBase (h : Option Handle) : List Resource := h.toList.map .base

def atListener (h : Option Handle) : List Resource := h.toList.map .listener

def atBufferevent (h : Option Handle) : List Resource := h.toList.map .bufferevent

def atBuffer (h : Option Handle) : List Resource := h.toList.map .buffer

end Resource

open Resource

/-- What each call creates and releases. -/
def callEffects : Effects Call Resource where
  created
    | .event (.eventBaseNew (some h)) => some (.base h)
    | .event (.evconnlistenerNewBind _ _ (some h)) => some (.listener h)
    | .event (.buffereventSocketNew _ _ (some h)) => some (.bufferevent h)
    | .malloc _ (some h) => some (.buffer h)
    | _ => none
  released
    | .event (.eventBaseFree (some h)) => some (.base h)
    | .event (.evconnlistenerFree (some h)) => some (.listener h)
    | .event (.buffereventFree (some h)) => some (.bufferevent h)
    | .free h => some (.buffer h)
    | _ => none

section Heaps

/-- 1 for what is allocated, 0 for all else. -/
def Heap.live (h : Heap) : Resource → ℕ
  | .base b => if b ∈ h.bases then 1 else 0
  | .listener l => if (h.listeners l).isSome then 1 else 0
  | .bufferevent b => if (h.bufferevents b).isSome then 1 else 0
  | .buffer p => if p ∈ h.buffers then 1 else 0

namespace Heap

variable (h : Heap)

@[simp] theorem live_empty (r : Resource) : empty.live r = 0 := by
  cases r <;> rfl

theorem live_addBase (ok : Bool) (r : Resource) :
    (h.addBase ok).live r =
      h.live r + (atBase (if ok then some h.fresh else none)).count r := by
  cases r with
  | base b =>
    have hfresh := (h.unused h.fresh le_rfl).1
    by_cases hb : b = h.fresh
    · subst hb
      cases ok <;> simp [live, atBase, hfresh]
    · cases ok <;> simp [live, atBase, hb, Ne.symm hb]
  | _ => cases ok <;> simp [live, atBase]

theorem live_removeBase (base : Option Handle) (r : Resource) :
    (h.removeBase base).live r = h.live r - (atBase base).count r := by
  cases base with
  | none => cases r <;> simp [live, atBase]
  | some b =>
    cases r with
    | base b' =>
      by_cases hb : b' = b
      · subst hb
        by_cases hmem : b' ∈ h.bases <;> simp [live, atBase, hmem]
      · simp [live, atBase, hb, Ne.symm hb]
    | _ => simp [live, atBase]

theorem live_addListener (made : Option Evconnlistener) (r : Resource) :
    (h.addListener made).live r =
      h.live r + (atListener (made.map fun _ => h.fresh)).count r := by
  cases r with
  | listener l =>
    have hfresh := (h.unused h.fresh le_rfl).2.1
    by_cases hl : l = h.fresh
    · subst hl
      cases made <;> simp [live, atListener, hfresh]
    · cases made <;> simp [live, atListener, hl, Ne.symm hl]
  | _ => cases made <;> simp [live, atListener]

theorem live_removeListener (listener : Option Handle) (r : Resource) :
    (h.removeListener listener).live r = h.live r - (atListener listener).count r := by
  cases listener with
  | none => cases r <;> simp [live, atListener]
  | some l =>
    cases r with
    | listener l' =>
      by_cases hl : l' = l
      · subst hl
        cases hlive : h.listeners l' <;> simp [live, atListener, hlive]
      · simp [live, atListener, hl, Ne.symm hl]
    | _ => simp [live, atListener]

theorem live_addBufferevent (made : Option Bufferevent) (r : Resource) :
    (h.addBufferevent made).live r =
      h.live r + (atBufferevent (made.map fun _ => h.fresh)).count r := by
  cases r with
  | bufferevent b =>
    have hfresh := (h.unused h.fresh le_rfl).2.2.1
    by_cases hb : b = h.fresh
    · subst hb
      cases made <;> simp [live, atBufferevent, hfresh]
    · cases made <;> simp [live, atBufferevent, hb, Ne.symm hb]
  | _ => cases made <;> simp [live, atBufferevent]

theorem live_removeBufferevent (bev : Option Handle) (r : Resource) :
    (h.removeBufferevent bev).live r = h.live r - (atBufferevent bev).count r := by
  cases bev with
  | none => cases r <;> simp [live, atBufferevent]
  | some b =>
    cases r with
    | bufferevent b' =>
      by_cases hb : b' = b
      · subst hb
        cases hlive : h.bufferevents b' <;> simp [live, atBufferevent, hlive]
      · simp [live, atBufferevent, hb, Ne.symm hb]
    | _ => simp [live, atBufferevent]

theorem live_modify (b : Handle) (f : Bufferevent → Bufferevent) (r : Resource) :
    (h.modify b f).live r = h.live r := by
  cases r with
  | bufferevent b' =>
    by_cases hb : b' = b
    · subst hb
      simp [live, modify]
    · simp [live, modify, hb]
  | _ => rfl

theorem live_addBuffer (ok : Bool) (r : Resource) :
    (h.addBuffer ok).live r =
      h.live r + (atBuffer (if ok then some h.fresh else none)).count r := by
  cases r with
  | buffer p =>
    have hfresh := (h.unused h.fresh le_rfl).2.2.2
    by_cases hp : p = h.fresh
    · subst hp
      cases ok <;> simp [live, atBuffer, hfresh]
    · cases ok <;> simp [live, atBuffer, hp, Ne.symm hp]
  | _ => cases ok <;> simp [live, atBuffer]

theorem live_removeBuffer (p : Handle) (r : Resource) :
    (h.removeBuffer p).live r = h.live r - (atBuffer (some p)).count r := by
  cases r with
  | buffer p' =>
    by_cases hp : p' = p
    · subst hp
      by_cases hmem : p' ∈ h.buffers <;> simp [live, atBuffer, hmem]
    · simp [live, atBuffer, hp, Ne.symm hp]
  | _ => simp [live, atBuffer]

end Heap
end Heaps

section Rule

/-- A property of worlds that all calls keep but those of the destructor. It looks at the heap
and at the calls made, not at the fields or the descriptors. -/
structure KeptByCalls (P : World ι → Prop) : Prop where
  same : ∀ {w w' : World ι}, P w → w'.heap = w.heap → w'.calls = w.calls → P w'
  modify : ∀ {w : World ι} (b f), P w → P { w with heap := w.heap.modify b f }
  other : ∀ {w w' : World ι} {c : Call}, P w → w'.heap = w.heap → w'.calls = w.calls ++ [c] →
    callEffects.created c = none → callEffects.released c = none → P w'
  invoke : ∀ {w : World ι} {c : Call}, P w → callEffects.created c = none →
    callEffects.released c = none → ∀ body, P (w.invoke c body)
  malloc : ∀ {w : World ι} (size ok), P w → P (w.malloc size ok).2
  free : ∀ {w : World ι} {p : Handle}, P w → p ∈ w.heap.buffers → P (w.free p)
  eventBaseNew : ∀ {w : World ι} (ok), P w → P (w.eventBaseNew ok).2
  evconnlistenerNewBind : ∀ {w : World ι} (base addr ret), P w →
    P (w.evconnlistenerNewBind base addr ret).2
  buffereventSocketNew : ∀ {w : World ι} (base fd ok), P w →
    P (w.buffereventSocketNew base fd ok).2
  buffereventSocketConnect : ∀ {w : World ι} (bev addr ok), P w →
    P (w.buffereventSocketConnect bev addr ok).2

namespace KeptByCalls

variable {P : World ι → Prop} (hP : KeptByCalls P) {w : World ι} (h : P w)

include hP h

theorem workerStep (inetAddr : CString → UInt32) (pc : WorkerPc) (o : Outcome) :
    P (workerStep inetAddr w pc o).2 := by
  cases pc with
  | serverEntry => exact hP.eventBaseNew o.ok h
  | serverBind addr base => exact hP.evconnlistenerNewBind base addr _ h
  | clientBaseNew addr fd => exact hP.eventBaseNew o.ok h
  | clientSocketNew addr fd base => exact hP.buffereventSocketNew base fd o.ok h
  | clientConnect addr base conn => exact hP.buffereventSocketConnect conn addr o.ok h
  | clientEntry | serverSetErrorCb | clientSetcb | clientEnable | dispatch =>
    exact hP.other h rfl rfl rfl rfl
  | _ => exact hP.same h rfl rfl

theorem start (created : Bool) : P (start w created).2.2 := by
  have hstopped : P { w with ati := { w.ati with mStoped := false } } := hP.same h rfl rfl
  simp only [AutoTest.start, initClientThread, initServerThread, initThread]
  split
  · split
    · exact hP.other hstopped rfl rfl rfl rfl
    · split
      · exact hP.other hstopped rfl rfl rfl rfl
      · exact h
  · exact h

theorem readcb (bev : Handle) (mallocOk : Bool) : P (autoTestOnReadcb w bev true mallocOk) := by
  by_cases hinput : w.buffereventInput bev = []
  · rw [autoTestOnReadcb_empty hinput]
    exact h
  · cases mallocOk with
    | false =>
      rw [autoTestOnReadcb_noMemory hinput]
      exact hP.malloc _ _ h
    | true =>
      have hread := hP.modify bev
        (fun r => { r with input := r.input.drop (w.buffereventInput bev).length })
        (hP.malloc ((w.buffereventInput bev).length + 1) true h)
      cases hcb : w.ati.mCallback with
      | none =>
        rw [autoTestOnReadcb_noCallback hinput hcb]
        exact hP.free hread (Finset.mem_insert_self _ _)
      | some cb =>
        rw [autoTestOnReadcb_delivers hinput hcb]
        exact hP.free (hP.invoke hread rfl rfl _) (Finset.mem_insert_self _ _)

theorem writecb (bev : Handle) (mallocOk : Bool) : P (autoTestWriteCb w bev true mallocOk) := by
  cases mallocOk with
  | false =>
    rw [autoTestWriteCb_noMemory]
    exact hP.malloc _ _ h
  | true =>
    rw [autoTestWriteCb_drains]
    exact hP.modify _ _ (hP.malloc _ _ h)

theorem eventCb (bev : Handle) (what : BitVec 16) : P (autoTestEventCb w bev what true) := by
  cases hcb : w.ati.mCallback with
  | none => simpa [autoTestEventCb, hcb] using h
  | some cb =>
    simp only [autoTestEventCb, hcb, if_true]
    split
    · have hset : P (w.setCallback (some (cb.setFd (w.buffereventGetfd bev)))) :=
        hP.same h rfl rfl
      exact hP.invoke hset rfl rfl _
    · split
      · exact hP.invoke h rfl rfl _
      · exact h

theorem listenerError (err : ℤ) : P (serverEvconnlistenerErrorcb w err true) := by
  cases hcb : w.ati.mCallback with
  | none => simpa [serverEvconnlistenerErrorcb, hcb] using h
  | some cb =>
    rw [serverEvconnlistenerErrorcb_eq hcb]
    exact hP.invoke h rfl rfl _

theorem accept (listener : Handle) (fd : Fd) (bevOk : Bool) :
    P (serverOnAccept w listener fd true bevOk) := by
  have hrest {v : World ι} (hv : P v) (base : Option Handle) :
      let r := (v.evconnlistenerGetBase (some listener)).2.buffereventSocketNew base fd bevOk
      P ((r.2.buffereventSetcb r.1).buffereventEnable r.1) := by
    intro r
    have hbase : P (v.evconnlistenerGetBase (some listener)).2 := hP.other hv rfl rfl rfl rfl
    have hnew : P r.2 := hP.buffereventSocketNew base fd bevOk hbase
    have hset : P (r.2.buffereventSetcb r.1) := hP.other hnew rfl rfl rfl rfl
    exact hP.other hset rfl rfl rfl rfl
  cases hcb : w.ati.mCallback with
  | none =>
    rw [serverOnAccept_noCallback hcb]
    exact hrest h _
  | some cb =>
    rw [serverOnAccept_eq hcb]
    have hset : P (w.setCallback (some (cb.setFd fd))) := hP.same h rfl rfl
    exact hrest (hP.invoke hset rfl rfl _) _

theorem writeMessage (msg : Bytes) (len : ℕ) (ret : ℤ) : P (writeMessage w msg len ret) := by
  cases hcb : w.ati.mCallback with
  | none => simpa [AutoTest.writeMessage, hcb] using h
  | some cb =>
    simp only [AutoTest.writeMessage, hcb]
    exact hP.invoke h rfl rfl _

omit h in
/-- The rule for actions: the calls of an action that is not the destructor. -/
theorem effect [DecidableEq ι] (inetAddr : CString → UInt32) {s t : Sys ι} {a : Action}
    {out : List Call} (h : P { s.world with calls := [] }) (hen : Enabled s a)
    (heff : effect inetAddr s a = (t, out)) (ha : a ≠ .destroy) :
    P t.world ∧ t.world.calls = out := by
  cases a with
  | start created =>
    cases heff
    exact ⟨hP.start h created, rfl⟩
  | worker k o =>
    obtain ⟨-, pc, hk, -⟩ := hen
    simp only [AutoTest.effect, Option.mem_def.mp hk] at heff
    cases heff
    exact ⟨hP.workerStep h inetAddr pc o, rfl⟩
  | accept listener fd bevOk =>
    cases heff
    have hopened : P (World.setFds { s.world with calls := [] } fd
        (some (.connection s.world.me))) := hP.same h rfl rfl
    exact ⟨hP.accept hopened listener fd bevOk, rfl⟩
  | arrive bev chunk =>
    cases heff
    exact ⟨hP.modify bev _ h, rfl⟩
  | readcb bev mallocOk =>
    cases heff
    exact ⟨hP.readcb h bev mallocOk, rfl⟩
  | writecb bev mallocOk =>
    cases heff
    exact ⟨hP.writecb h bev mallocOk, rfl⟩
  | event bev what =>
    cases heff
    have hreported : P (Sys.reportConnect { s.world with calls := [] } bev what) :=
      hP.same (hP.modify bev _ h) rfl rfl
    exact ⟨hP.eventCb hreported bev what, rfl⟩
  | listenerError listener err =>
    cases heff
    exact ⟨hP.listenerError h err, rfl⟩
  | writeMessage msg len ret =>
    cases heff
    exact ⟨hP.writeMessage h msg len ret, rfl⟩
  | destroy => exact absurd rfl ha
  | openOther fd | closeOther fd =>
    cases heff
    exact ⟨hP.same h rfl rfl, rfl⟩

end KeptByCalls
end Rule

section Books

/-- The books after the calls `log` and those of the running function: they agree with what is
allocated, and all names in them are used up. -/
structure World.Booked (log : List Call) (w : World ι) : Prop where
  ledger : callEffects.Ledger w.heap.live (log ++ w.calls)
  named : ∀ r, 0 < callEffects.createdIn (log ++ w.calls) r → r.handle < w.heap.fresh

namespace World.Booked

variable {log : List Call} {w w' : World ι}

/-- A call that creates under the next name only, and changes what is allocated by what it
creates and releases. -/
theorem call {c : Call} (h : w.Booked log) (hcalls : w'.calls = w.calls ++ [c])
    (hfresh : w.heap.fresh ≤ w'.heap.fresh)
    (hnew : ∀ r ∈ callEffects.created c,
      r.handle = w.heap.fresh ∧ w.heap.fresh < w'.heap.fresh)
    (hlive : ∀ r, w'.heap.live r + (callEffects.released c).toList.count r =
      w.heap.live r + (callEffects.created c).toList.count r) : w'.Booked log := by
  have hlog : log ++ w'.calls = (log ++ w.calls) ++ [c] := by simp [hcalls]
  have hcreated (r : Resource) (hr : 0 < callEffects.createdIn [c] r) :
      r.handle = w.heap.fresh ∧ w.heap.fresh < w'.heap.fresh := by
    rw [Effects.createdIn_singleton] at hr
    exact hnew r (Option.mem_toList.mp (List.count_pos_iff.mp hr))
  refine ⟨?_, fun r hr => ?_⟩
  · rw [hlog]
    refine h.ledger.append (fun r => ?_) fun r => ?_
    · by_cases hr : 0 < callEffects.createdIn [c] r
      · have hold : ¬ 0 < callEffects.createdIn (log ++ w.calls) r := by
          intro hpos
          have hlt := h.named r hpos
          rw [(hcreated r hr).1] at hlt
          exact lt_irrefl _ hlt
        have hone : callEffects.createdIn [c] r ≤ 1 := by
          rw [Effects.createdIn_singleton]
          exact List.count_le_length.trans (by cases callEffects.created c <;> simp)
        omega
      · have honce := h.ledger.createdOnce r
        omega
    · rw [Effects.createdIn_singleton, Effects.releasedIn_singleton]
      exact hlive r
  · rw [hlog, Effects.createdIn_append] at hr
    by_cases hc : 0 < callEffects.createdIn [c] r
    · obtain ⟨hname, hlt⟩ := hcreated r hc
      rwa [hname]
    · exact (h.named r (by omega)).trans_le hfresh

/-- A call that neither creates nor releases. -/
theorem other {c : Call} (h : w.Booked log) (hheap : w'.heap = w.heap)
    (hcalls : w'.calls = w.calls ++ [c]) (hc : callEffects.created c = none)
    (hr : callEffects.released c = none) : w'.Booked log := by
  refine h.call hcalls (by rw [hheap]) ?_ fun r => ?_
  · rw [hc]
    simp
  · rw [hheap, hc, hr]

/-- A call that releases what is allocated. -/
theorem release {c : Call} (h : w.Booked log) (hcalls : w'.calls = w.calls ++ [c])
    (hfresh : w'.heap.fresh = w.heap.fresh) (hc : callEffects.created c = none)
    (hlive : ∀ r, w'.heap.live r = w.heap.live r - (callEffects.released c).toList.count r)
    (hheld : ∀ r, (callEffects.released c).toList.count r ≤ w.heap.live r) : w'.Booked log := by
  refine h.call hcalls hfresh.ge (by simp [hc]) fun r => ?_
  have hchange := hlive r
  have hle := hheld r
  simp only [hc, Option.toList_none, List.count_nil]
  omega

theorem invoke (h : w.Booked log) {c : Call} (hc : callEffects.created c = none)
    (hr : callEffects.released c = none) (body : List OsCall) : (w.invoke c body).Booked log := by
  have hos : (body.map Call.os).filterMap callEffects.created = [] ∧
      (body.map Call.os).filterMap callEffects.released = [] := by
    constructor <;> simp [callEffects]
  have hcreated (r : Resource) : callEffects.createdIn (log ++ (w.invoke c body).calls) r =
      callEffects.createdIn (log ++ w.calls) r := by
    simp [World.invoke, Effects.createdIn, hc, hos.1]
  have hreleased (r : Resource) : callEffects.releasedIn (log ++ (w.invoke c body).calls) r =
      callEffects.releasedIn (log ++ w.calls) r := by
    simp [World.invoke, Effects.releasedIn, hr, hos.2]
  refine ⟨⟨fun r => ?_, fun r => ?_⟩, fun r hpos => ?_⟩
  · rw [hcreated]
    exact h.ledger.createdOnce r
  · rw [hcreated, hreleased]
    exact h.ledger.balance r
  · rw [hcreated] at hpos
    exact h.named r hpos

theorem keptByCalls (log : List Call) : KeptByCalls (fun w : World ι => w.Booked log) where
  same h hheap hcalls := by
    refine ⟨?_, ?_⟩
    · rw [hheap, hcalls]
      exact h.ledger
    · rw [hheap, hcalls]
      exact h.named
  modify {w} b f h := by
    have hlive : (w.heap.modify b f).live = w.heap.live := funext fun r => w.heap.live_modify b f r
    exact ⟨hlive ▸ h.ledger, h.named⟩
  other := other
  invoke h := h.invoke
  malloc size ok h := by
    refine h.call rfl (Nat.le_succ _) ?_ fun r => ?_
    · cases ok <;> simp [callEffects, Resource.handle, World.malloc]
    · cases ok <;> simp [World.malloc, Heap.live_addBuffer, callEffects, atBuffer]
  free {w p} h hp := by
    refine h.release rfl rfl rfl (w.heap.live_removeBuffer p) fun r => ?_
    by_cases hr : r = .buffer p
    · subst hr
      simp [callEffects, Heap.live, hp]
    · simp [callEffects, Ne.symm hr]
  eventBaseNew ok h := by
    refine h.call rfl (Nat.le_succ _) ?_ fun r => ?_
    · cases ok <;> simp [callEffects, Resource.handle, World.eventBaseNew]
    · cases ok <;> simp [World.eventBaseNew, Heap.live_addBase, callEffects, atBase]
  evconnlistenerNewBind base addr ret h := by
    refine h.call rfl (Nat.le_succ _) ?_ fun r => ?_
    · cases base <;> cases ret <;>
        simp [callEffects, Resource.handle, World.evconnlistenerNewBind]
    · cases base <;> cases ret <;>
        simp [World.evconnlistenerNewBind, Heap.live_addListener, callEffects, atListener]
  buffereventSocketNew base fd ok h := by
    refine h.call rfl (Nat.le_succ _) ?_ fun r => ?_
    · cases base <;> cases ok <;>
        simp [callEffects, Resource.handle, World.buffereventSocketNew]
    · cases base <;> cases ok <;>
        simp [World.buffereventSocketNew, Heap.live_addBufferevent, callEffects, atBufferevent]
  buffereventSocketConnect bev addr ok h := by
    refine h.call rfl ?_ (by simp [callEffects]) fun r => ?_
    · cases bev <;> cases ok <;> exact le_rfl
    · cases bev <;> cases ok <;>
        simp [World.buffereventSocketConnect, Heap.live_modify, callEffects]

/-- The calls of a function that has returned join the log. -/
theorem returned (h : w.Booked log) : World.Booked (log ++ w.calls) { w with calls := [] } where
  ledger := by simpa using h.ledger
  named := by simpa using h.named

end World.Booked

/-- The function that is running has released nothing but buffers. -/
def World.ReleasesBuffers (w : World ι) : Prop :=
  ∀ c ∈ w.calls, ∀ r ∈ callEffects.released c, ∃ p, r = .buffer p

theorem World.ReleasesBuffers.call {w w' : World ι} {c : Call} (h : w.ReleasesBuffers)
    (hcalls : w'.calls = w.calls ++ [c])
    (hc : ∀ r ∈ callEffects.released c, ∃ p, r = .buffer p) : w'.ReleasesBuffers := by
  intro c' hc'
  rw [hcalls] at hc'
  rcases List.mem_append.mp hc' with hold | hnew
  · exact h c' hold
  · rwa [List.mem_singleton.mp hnew]

theorem World.ReleasesBuffers.keptByCalls : KeptByCalls (fun w : World ι => w.ReleasesBuffers) where
  same h _ hcalls := by
    rw [World.ReleasesBuffers, hcalls]
    exact h
  modify _ _ h := h
  other h _ hcalls _ hr := h.call hcalls (by simp [hr])
  invoke {w c} h _ hr body := by
    intro c' hc'
    rcases List.mem_append.mp hc' with hold | hnew
    · exact h c' hold
    rcases List.mem_cons.mp hnew with rfl | hos
    · simp [hr]
    · obtain ⟨o, -, rfl⟩ := List.mem_map.mp hos
      simp [callEffects]
  malloc _ _ h := h.call rfl (by simp [callEffects])
  free {w p} h _ := h.call rfl fun r hr => ⟨p, by cases hr; rfl⟩
  eventBaseNew _ h := h.call rfl (by simp [callEffects])
  evconnlistenerNewBind _ _ _ h := h.call rfl (by simp [callEffects])
  buffereventSocketNew _ _ _ h := h.call rfl (by simp [callEffects])
  buffereventSocketConnect _ _ _ h := h.call rfl (by simp [callEffects])

end Books

section Destructor

variable {log : List Call} (w : World ι) (r : Resource)

theorem freeConn_live :
    (freeConn w).heap.live r = w.heap.live r - (atBufferevent w.ati.conn).count r := by
  cases hconn : w.ati.conn with
  | none => simp [freeConn, hconn, atBufferevent]
  | some b =>
    simp only [freeConn, hconn, Option.isSome_some, if_true]
    exact w.heap.live_removeBufferevent (some b) r

theorem freeBaselistener_live : (freeBaselistener w).heap.live r =
    w.heap.live r - (atListener w.ati.mBaselistener).count r := by
  cases hlistener : w.ati.mBaselistener with
  | none => simp [freeBaselistener, hlistener, atListener]
  | some l =>
    simp only [freeBaselistener, hlistener, Option.isSome_some, if_true]
    exact w.heap.live_removeListener (some l) r

theorem freeServerBase_live : (freeServerBase w).heap.live r =
    w.heap.live r - (atBase w.ati.serverBase).count r := by
  cases hbase : w.ati.serverBase with
  | none => simp [freeServerBase, hbase, atBase]
  | some b =>
    have hkept : (w.eventBaseLoopexit (some b)).ati.serverBase = some b := hbase
    simp only [freeServerBase, hbase, hkept, Option.isSome_some, if_true]
    exact w.heap.live_removeBase (some b) r

theorem freeClientBase_live : (freeClientBase w).heap.live r =
    w.heap.live r - (atBase w.ati.clientBase).count r := by
  cases hbase : w.ati.clientBase with
  | none => simp [freeClientBase, hbase, atBase]
  | some b =>
    have hkept : (w.eventBaseLoopexit (some b)).ati.clientBase = some b := hbase
    simp only [freeClientBase, hbase, hkept, Option.isSome_some, if_true]
    exact w.heap.live_removeBase (some b) r

/-- What the fields refer to, in the order in which the destructor releases it. -/
def AutoTestInterface.stored (a : AutoTestInterface) : List Resource :=
  atBufferevent a.conn ++ atListener a.mBaselistener ++ atBase a.serverBase ++
    atBase a.clientBase

/-- The destructor releases what the fields refer to. -/
theorem destroy_live :
    (destroy w).heap.live r = w.heap.live r - w.ati.stored.count r := by
  rw [destroy, freeClientBase_live, freeServerBase_live, freeBaselistener_live, freeConn_live,
    deleteCallback_heap, freeServerBase_ati, freeBaselistener_ati, freeConn_ati,
    deleteCallback_ati]
  simp only [AutoTestInterface.stored, List.count_append]
  omega

theorem destroy_released (hcalls : w.calls = []) :
    (destroy w).calls.filterMap callEffects.released = w.ati.stored := by
  rw [destroy_calls, hcalls, AutoTestInterface.stored]
  cases w.ati.mCallback <;> cases w.ati.conn <;> cases w.ati.mBaselistener <;>
    cases w.ati.serverBase <;> cases w.ati.clientBase <;> rfl

variable {w}

theorem freeConn_booked (h : w.Booked log)
    (hheld : ∀ r, (atBufferevent w.ati.conn).count r ≤ w.heap.live r) :
    (freeConn w).Booked log := by
  cases hconn : w.ati.conn with
  | none => simpa [freeConn, hconn] using h
  | some b =>
    rw [hconn] at hheld
    have hfree : (w.buffereventFree (some b)).Booked log :=
      h.release rfl rfl rfl (w.heap.live_removeBufferevent (some b)) hheld
    simp only [freeConn, hconn, Option.isSome_some, if_true]
    exact ⟨hfree.ledger, hfree.named⟩

theorem freeBaselistener_booked (h : w.Booked log)
    (hheld : ∀ r, (atListener w.ati.mBaselistener).count r ≤ w.heap.live r) :
    (freeBaselistener w).Booked log := by
  cases hlistener : w.ati.mBaselistener with
  | none => simpa [freeBaselistener, hlistener] using h
  | some l =>
    rw [hlistener] at hheld
    have hfree : (w.evconnlistenerFree (some l)).Booked log :=
      h.release rfl rfl rfl (w.heap.live_removeListener (some l)) hheld
    simp only [freeBaselistener, hlistener, Option.isSome_some, if_true]
    exact ⟨hfree.ledger, hfree.named⟩

theorem eventBaseFree_booked {b : Handle} (h : w.Booked log)
    (hheld : ∀ r, (atBase (some b)).count r ≤ w.heap.live r) :
    ((w.eventBaseLoopexit (some b)).eventBaseFree (some b)).Booked log := by
  have hloopexit : (w.eventBaseLoopexit (some b)).Booked log := h.other rfl rfl rfl rfl
  exact hloopexit.release rfl rfl rfl (w.heap.live_removeBase (some b)) hheld

theorem freeServerBase_booked (h : w.Booked log)
    (hheld : ∀ r, (atBase w.ati.serverBase).count r ≤ w.heap.live r) :
    (freeServerBase w).Booked log := by
  cases hbase : w.ati.serverBase with
  | none => simpa [freeServerBase, hbase] using h
  | some b =>
    rw [hbase] at hheld
    have hfree := eventBaseFree_booked h hheld
    have hkept : (w.eventBaseLoopexit (some b)).ati.serverBase = some b := hbase
    simp only [freeServerBase, hbase, hkept, Option.isSome_some, if_true]
    exact ⟨hfree.ledger, hfree.named⟩

theorem freeClientBase_booked (h : w.Booked log)
    (hheld : ∀ r, (atBase w.ati.clientBase).count r ≤ w.heap.live r) :
    (freeClientBase w).Booked log := by
  cases hbase : w.ati.clientBase with
  | none => simpa [freeClientBase, hbase] using h
  | some b =>
    rw [hbase] at hheld
    have hfree := eventBaseFree_booked h hheld
    have hkept : (w.eventBaseLoopexit (some b)).ati.clientBase = some b := hbase
    simp only [freeClientBase, hbase, hkept, Option.isSome_some, if_true]
    exact ⟨hfree.ledger, hfree.named⟩

/-- The books agree after the destructor when each thing the fields refer to is allocated and
referred to once. -/
theorem destroy_booked (h : w.Booked log)
    (hheld : ∀ r, w.ati.stored.count r ≤ w.heap.live r) : (destroy w).Booked log := by
  have hcallback : (deleteCallback w).Booked log := by
    unfold deleteCallback
    split
    · have hemit : (w.emit .deleteCallback).Booked log := h.other rfl rfl rfl rfl
      exact ⟨hemit.ledger, hemit.named⟩
    · exact h
  simp only [AutoTestInterface.stored, List.count_append] at hheld
  have hconn := freeConn_booked hcallback fun r => by
    have hle := hheld r
    rw [deleteCallback_ati, deleteCallback_heap]
    dsimp only
    omega
  have hlistener := freeBaselistener_booked hconn fun r => by
    have hle := hheld r
    rw [freeConn_live, freeConn_ati, deleteCallback_ati, deleteCallback_heap]
    dsimp only
    omega
  have hserver := freeServerBase_booked hlistener fun r => by
    have hle := hheld r
    rw [freeBaselistener_live, freeConn_live, freeBaselistener_ati, freeConn_ati,
      deleteCallback_ati, deleteCallback_heap]
    dsimp only
    omega
  exact freeClientBase_booked hserver fun r => by
    have hle := hheld r
    rw [freeServerBase_live, freeBaselistener_live, freeConn_live, freeServerBase_ati,
      freeBaselistener_ati, freeConn_ati, deleteCallback_ati, deleteCallback_heap]
    dsimp only
    omega

end Destructor
end AutoTest
