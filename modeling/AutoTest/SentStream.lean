import AutoTest.ResourceSteps
import AutoTest.ProcessMachine
import AutoTest.TruncatedStreams

/-!
# What the socket of an endpoint accepts

`sendServermsg` and `sendClientMsg` write each message once and drop the result of the write.
The bytes a socket has accepted are then a prefix of the messages, for all contents of the
messages, exactly when it accepts nothing after it has cut a message.
-/

namespace AutoTest.SentStream

open OutputMachines SharedMachines TruncatedStreams

/-- A call of `sendServermsg` or `sendClientMsg`, and the result of the write it makes. -/
structure Send where
  endpoint : Endpoint
  msg : Bytes
  ret : ℤ
  ret_ge : -1 ≤ ret
  ret_le : ret ≤ msg.length

def Send.action (x : Send) : Endpoint × Action :=
  match x.endpoint with
  | .autotestServer => sendServermsg x.msg x.ret
  | .autotestClient => sendClientMsg x.msg x.ret

/-- All there is to a call but the contents of the message. -/
def Send.shape (x : Send) : Endpoint × ℕ × ℤ := (x.endpoint, x.msg.length, x.ret)

/-- How many bytes of the message the socket took. -/
def Send.taken (x : Send) : ℕ := x.ret.toNat

/-- No write takes bytes after an earlier write of the same endpoint took only a part of its
message. -/
def NothingAfterCut (sends : List Send) : Prop :=
  ∀ pre x post, sends = pre ++ x :: post → 0 < x.taken →
    ∀ y ∈ pre, y.endpoint = x.endpoint → y.taken = y.msg.length

instance (sends : List Send) : Decidable (NothingAfterCut sends) :=
  decidable_of_iff (∀ i : Fin sends.length, 0 < sends[i].taken →
    ∀ y ∈ sends.take i, y.endpoint = sends[i].endpoint → y.taken = y.msg.length) <| by
    constructor
    · rintro h pre x post rfl
      simpa using h ⟨pre.length, by simp⟩
    · intro h i
      exact h _ _ (sends.drop (i + 1)) (by simp)

/-- The bytes that the socket `fd` takes from a call. -/
def acceptedBytes (fd : Fd) : Call → Bytes
  | .os (.write fd' buf count ret) => if fd' = fd then (buf.take count).take ret.toNat else []
  | _ => []

def acceptedBy (fd : Fd) (tr : List (ProcessStep Endpoint)) : Bytes :=
  tr.flatMap fun y => y.outputs.flatMap (acceptedBytes fd)

/-- The message an action is to send for the endpoint `k`. -/
def messageOf (k : Endpoint) : Endpoint × Action → Bytes
  | (j, .writeMessage msg len _) => if j = k then msg.take len else []
  | _ => []

def messages (k : Endpoint) (tr : List (ProcessStep Endpoint)) : Bytes :=
  tr.flatMap fun y => messageOf k y.action

/-- After the step, what the socket of its endpoint has accepted is a prefix of the messages. -/
def Prefixed (fd : Endpoint → Fd) (hist : List (ProcessStep Endpoint))
    (x : ProcessStep Endpoint) : Prop :=
  acceptedBy (fd x.action.1) (hist ++ [x]) <+: messages x.action.1 (hist ++ [x])

instance (fd : Endpoint → Fd) (hist : List (ProcessStep Endpoint)) (x : ProcessStep Endpoint) :
    Decidable (Prefixed fd hist x) :=
  inferInstanceAs (Decidable (_ <+: _))

/-- The interface of the endpoint has a `MyCallback`, and the stored descriptor is an open
connection of it. -/
structure Connected (p : Process Endpoint) (k : Endpoint) (fd : Fd) : Prop where
  alive : (p.interface k).destroyed = false
  callback : (p.interface k).world.ati.mCallback = some ⟨myCallback, fd⟩
  connection : p.shared fd = some (.connection k)

section Sends

variable (inetAddr : CString → UInt32) {p : Process Endpoint} {fd : Endpoint → Fd}

theorem Send.action_eq (x : Send) :
    x.action = (x.endpoint, .writeMessage x.msg x.msg.length x.ret) := by
  unfold Send.action
  split <;> rename_i he <;> rw [he] <;> rfl

/-- The calls of a send on an endpoint whose stored descriptor is `fd`. -/
def Send.calls (x : Send) (fd : Fd) : List Call :=
  [.onWrite fd x.msg x.msg.length, .os (.write fd x.msg x.msg.length x.ret)]

/-- A send writes to the connection of its endpoint and disturbs no endpoint. -/
theorem send_step (x : Send) {d : Fd} (h : Connected p x.endpoint d) :
    ∃ q, (processMachine inetAddr).step p x.action = some (q, x.calls d) ∧
      ∀ j d', Connected p j d' → Connected q j d' := by
  set s := p.interface x.endpoint with hs
  set a := Action.writeMessage x.msg x.msg.length x.ret with ha
  have hen : Enabled s a := ⟨h.alive, le_rfl, x.ret_ge, x.ret_le⟩
  have hout : (effect inetAddr s a).2 = x.calls d := by
    rw [writeMessage_outputs inetAddr h.callback]
    rfl
  have hown : (interfaceMachine inetAddr).step s a = some ((effect inetAddr s a).1, x.calls d) := by
    rw [interfaceMachine_step, ← hout]
    exact ⟨hen, rfl⟩
  have hfds : (effect inetAddr s a).1.world.fds = p.shared :=
    effect_fds inetAddr h.callback rfl a
  have hati : (effect inetAddr s a).1.world.ati = s.world.ati := effect_ati inetAddr s a
  have hdestroyed : (effect inetAddr s a).1.destroyed = s.destroyed := rfl
  refine ⟨⟨p.shared, Function.update p.component x.endpoint (effect inetAddr s a).1⟩, ?_, ?_⟩
  · rw [Send.action_eq, ← hfds]
    exact Option.map_eq_some_iff.mpr ⟨_, hown, rfl⟩
  · intro j d' hj
    by_cases hjk : j = x.endpoint
    · subst hjk
      refine ⟨?_, ?_, hj.connection⟩
      · simp only [Family.view, Function.update_self]
        exact hdestroyed.trans hj.alive
      · simp only [Family.view, Function.update_self]
        exact (congrArg AutoTestInterface.mCallback hati).trans hj.callback
    · refine ⟨?_, ?_, hj.connection⟩
      · simp only [Family.view, Function.update_of_ne hjk]
        exact hj.alive
      · simp only [Family.view, Function.update_of_ne hjk]
        exact hj.callback

/-- The run of a sequence of sends: its actions and its calls. -/
theorem sends_run (sends : List Send) (h : ∀ x ∈ sends, Connected p x.endpoint (fd x.endpoint)) :
    ∃ tr t, (processMachine inetAddr).run p (sends.map Send.action) = some (tr, t) ∧
      tr.map (fun y => (y.action, y.outputs)) =
        sends.map fun x => (x.action, x.calls (fd x.endpoint)) := by
  induction sends generalizing p with
  | nil => exact ⟨[], p, rfl, rfl⟩
  | cons x sends ih =>
    obtain ⟨q, hstep, hq⟩ := send_step inetAddr x (h x List.mem_cons_self)
    obtain ⟨tr, t, hrun, hmap⟩ :=
      ih fun y hy => hq _ _ (h y (List.mem_cons_of_mem x hy))
    refine ⟨⟨p, x.action, x.calls (fd x.endpoint), q⟩ :: tr, t, ?_, ?_⟩
    · simp only [List.map_cons, Machine.run, hstep, hrun, Option.map_some]
    · rw [List.map_cons, List.map_cons, hmap]

end Sends

/-- The writes of the sends of one endpoint. -/
def Send.write (x : Send) : Write UInt8 where
  data := x.msg
  accepted := x.taken
  accepted_le := by
    have hle := x.ret_le
    unfold Send.taken
    omega

def writesOf (k : Endpoint) (sends : List Send) : List (Write UInt8) :=
  (sends.filter fun x => x.endpoint = k).map Send.write

theorem writesOf_snoc {k : Endpoint} {x : Send} (h : x.endpoint = k) (sends : List Send) :
    writesOf k (sends ++ [x]) = writesOf k sends ++ [x.write] := by
  simp [writesOf, h]

section Streams

variable {fd : Endpoint → Fd} {sends : List Send} {tr : List (ProcessStep Endpoint)}

/-- The bytes accepted by the socket of an endpoint are the stream of its writes. -/
theorem acceptedBy_eq (hmap : tr.map (fun y => (y.action, y.outputs)) =
      sends.map fun x => (x.action, x.calls (fd x.endpoint)))
    (k : Endpoint) (hfd : ∀ x ∈ sends, fd x.endpoint = fd k → x.endpoint = k) :
    acceptedBy (fd k) tr = stream (writesOf k sends) := by
  have hcalls : acceptedBy (fd k) tr =
      sends.flatMap fun x => (x.calls (fd x.endpoint)).flatMap (acceptedBytes (fd k)) := by
    have h := congrArg (List.flatMap fun z => z.2.flatMap (acceptedBytes (fd k))) hmap
    simpa [List.flatMap_map, acceptedBy] using h
  rw [hcalls]
  clear hmap hcalls
  induction sends with
  | nil => rfl
  | cons x sends ih =>
    have hrest := ih fun y hy => hfd y (List.mem_cons_of_mem x hy)
    rw [List.flatMap_cons, hrest]
    by_cases hx : x.endpoint = k
    · have htake : (x.calls (fd x.endpoint)).flatMap (acceptedBytes (fd k)) =
          x.msg.take x.taken := by
        simp [Send.calls, acceptedBytes, hx, Send.taken]
      rw [htake]
      simp [writesOf, hx, stream, Send.write]
    · have hne : ¬ fd x.endpoint = fd k := fun he => hx (hfd x List.mem_cons_self he)
      simp [writesOf, hx, Send.calls, acceptedBytes, hne]

theorem messages_eq (hmap : tr.map (fun y => (y.action, y.outputs)) =
      sends.map fun x => (x.action, x.calls (fd x.endpoint))) (k : Endpoint) :
    messages k tr = offered (writesOf k sends) := by
  have hactions : messages k tr = sends.flatMap fun x => messageOf k x.action := by
    have h := congrArg (List.flatMap fun z => messageOf k z.1) hmap
    simpa [List.flatMap_map, messages] using h
  rw [hactions]
  clear hmap hactions
  induction sends with
  | nil => rfl
  | cons x sends ih =>
    rw [List.flatMap_cons, ih, Send.action_eq]
    by_cases hx : x.endpoint = k
    · simp [writesOf, hx, messageOf, offered, Send.write]
    · simp [writesOf, hx, messageOf]

/-- Sends that accept nothing after a cut make an unbroken stream for each endpoint. -/
theorem unbroken_writesOf (h : NothingAfterCut sends) (k : Endpoint) :
    Unbroken (writesOf k sends) := by
  induction sends using List.reverseRecOn with
  | nil => exact unbroken_nil
  | append_singleton sends x ih =>
    have hpre : NothingAfterCut sends := by
      rintro pre y post rfl
      exact h pre y (post ++ [x]) (by simp)
    by_cases hx : x.endpoint = k
    · rw [writesOf_snoc hx, unbroken_snoc]
      refine ⟨ih hpre, fun hpos v hv => ?_⟩
      obtain ⟨y, hy, rfl⟩ := List.mem_map.mp hv
      obtain ⟨hmem, hyk⟩ := List.mem_filter.mp hy
      exact h sends x [] rfl hpos y hmem ((of_decide_eq_true hyk).trans hx.symm)
    · have hsame : writesOf k (sends ++ [x]) = writesOf k sends := by
        simp [writesOf, hx]
      rw [hsame]
      exact ih hpre

end Streams

section Contents

variable {p : Process Endpoint} {fd : Endpoint → Fd} {sends : List Send}

/-- The sends made so far, for each step of the run of a sequence of sends. -/
theorem prefixed_iff {tr : List (ProcessStep Endpoint)}
    (hconn : ∀ x ∈ sends, Connected p x.endpoint (fd x.endpoint))
    (hmap : tr.map (fun y => (y.action, y.outputs)) =
      sends.map fun x => (x.action, x.calls (fd x.endpoint))) :
    Every (Prefixed fd) tr ↔ ∀ pre x post, sends = pre ++ x :: post →
      stream (writesOf x.endpoint (pre ++ [x])) <+: offered (writesOf x.endpoint (pre ++ [x])) := by
  have hstep {pre : List (ProcessStep Endpoint)} {y : ProcessStep Endpoint}
      {spre spost : List Send} {x : Send} (hsends : sends = spre ++ x :: spost)
      (hpre : pre.map (fun y => (y.action, y.outputs)) =
        spre.map fun x => (x.action, x.calls (fd x.endpoint)))
      (hy : (y.action, y.outputs) = (x.action, x.calls (fd x.endpoint))) :
      Prefixed fd pre y ↔ stream (writesOf x.endpoint (spre ++ [x])) <+:
        offered (writesOf x.endpoint (spre ++ [x])) := by
    have hend : y.action.1 = x.endpoint := by
      rw [(Prod.mk.inj hy).1, Send.action_eq]
    have hall : (pre ++ [y]).map (fun y => (y.action, y.outputs)) =
        (spre ++ [x]).map fun x => (x.action, x.calls (fd x.endpoint)) := by
      rw [List.map_append, List.map_append, hpre]
      exact congrArg _ (congrArg (· :: []) hy)
    rw [Prefixed, hend, messages_eq hall, acceptedBy_eq hall]
    intro z hz hfd
    have hmem : z ∈ sends := by
      rw [hsends, List.append_cons]
      exact List.mem_append_left _ hz
    have hz' := (hconn z hmem).connection
    have hx' := (hconn x (by simp [hsends])).connection
    rw [hfd, hx'] at hz'
    exact (Holder.connection.inj (Option.some.inj hz')).symm
  constructor
  · rintro hevery spre x spost rfl
    rw [List.map_append, List.map_cons] at hmap
    obtain ⟨pre, rest, rfl, hpre, hrest⟩ := List.map_eq_append_iff.mp hmap
    obtain ⟨y, post, rfl, hy, -⟩ := List.map_eq_cons_iff.mp hrest
    exact (hstep rfl hpre hy).mp (hevery pre y post rfl)
  · rintro hsends pre y post rfl
    rw [List.map_append, List.map_cons] at hmap
    obtain ⟨spre, srest, rfl, hpre, hrest⟩ := List.map_eq_append_iff.mp hmap.symm
    obtain ⟨x, spost, rfl, hx, -⟩ := List.map_eq_cons_iff.mp hrest
    exact (hstep rfl hpre.symm hx.symm).mpr (hsends spre x spost rfl)

/-- The condition depends on the shapes of the sends alone. -/
theorem NothingAfterCut.of_shape {sends' : List Send} (h : NothingAfterCut sends)
    (hshape : sends'.map Send.shape = sends.map Send.shape) : NothingAfterCut sends' := by
  have htaken {x y : Send} (he : x.shape = y.shape) :
      x.endpoint = y.endpoint ∧ x.msg.length = y.msg.length ∧ x.taken = y.taken := by
    obtain ⟨hk, hrest⟩ := Prod.mk.inj he
    obtain ⟨hlen, hret⟩ := Prod.mk.inj hrest
    exact ⟨hk, hlen, congrArg Int.toNat hret⟩
  rintro pre x post rfl hpos y hy hend
  rw [List.map_append, List.map_cons] at hshape
  obtain ⟨pre', rest, rfl, hpre, hrest⟩ := List.map_eq_append_iff.mp hshape.symm
  obtain ⟨x', post', rfl, hx, -⟩ := List.map_eq_cons_iff.mp hrest
  obtain ⟨y', hy', hye⟩ := List.mem_map.mp (hpre ▸ List.mem_map_of_mem (f := Send.shape) hy)
  obtain ⟨hxk, -, hxt⟩ := htaken hx
  obtain ⟨hyk, hylen, hyt⟩ := htaken hye
  rw [← hylen, ← hyt]
  exact h pre' x' post' rfl (hxt ▸ hpos) y' hy' (by rw [hyk, hxk, hend])

/-- A send of the same shape whose message repeats one byte. -/
def Send.fill (x : Send) (c : UInt8) : Send where
  endpoint := x.endpoint
  msg := List.replicate x.msg.length c
  ret := x.ret
  ret_ge := x.ret_ge
  ret_le := by rw [List.length_replicate]; exact x.ret_le

@[simp] theorem Send.fill_shape (x : Send) (c : UInt8) : (x.fill c).shape = x.shape := by
  simp [Send.fill, Send.shape]

/-- From any process with the endpoints connected, for any lengths of the messages and any
results of the writes: whatever the messages contain, each socket has after each step accepted
a prefix of the messages of its endpoint, exactly when no socket accepts anything after it has
cut a message. -/
theorem sent_prefix_iff (inetAddr : CString → UInt32)
    (hconn : ∀ x ∈ sends, Connected p x.endpoint (fd x.endpoint)) :
    (∀ sends' : List Send, sends'.map Send.shape = sends.map Send.shape →
      ∃ tr t, (processMachine inetAddr).run p (sends'.map Send.action) = some (tr, t) ∧
        Every (Prefixed fd) tr) ↔ NothingAfterCut sends := by
  have hconn' {sends' : List Send} (hshape : sends'.map Send.shape = sends.map Send.shape) :
      ∀ x ∈ sends', Connected p x.endpoint (fd x.endpoint) := by
    intro x hx
    obtain ⟨y, hy, he⟩ := List.mem_map.mp (hshape ▸ List.mem_map_of_mem (f := Send.shape) hx)
    rw [← (Prod.mk.inj he).1]
    exact hconn y hy
  constructor
  · rintro hall pre x post rfl hpos y hy hend
    by_contra hcut
    have hshape : (pre.map (·.fill 0) ++ x.fill 1 :: post).map Send.shape =
        (pre ++ x :: post).map Send.shape := by
      simp [Function.comp_def]
    obtain ⟨tr, t, hrun, hevery⟩ := hall _ hshape
    obtain ⟨tr', t', hrun', hmap⟩ := sends_run inetAddr _ (hconn' hshape)
    rw [hrun] at hrun'
    cases hrun'
    have hprefix := (prefixed_iff (hconn' hshape) hmap).mp hevery _ _ _ rfl
    rw [writesOf_snoc rfl] at hprefix
    have hlen : 0 < x.msg.length := by
      have hle := x.ret_le
      unfold Send.taken at hpos
      omega
    refine not_prefix_of_cut (a := (0 : UInt8)) (b := 1) (by decide) (v := (y.fill 0).write)
      ?_ ?_ ?_ ?_ hpos hprefix
    · intro w hw
      obtain ⟨z, hz, rfl⟩ := List.mem_map.mp hw
      obtain ⟨z', -, rfl⟩ := List.mem_map.mp (List.mem_filter.mp hz).1
      simp [Send.write, Send.fill]
    · refine List.mem_map_of_mem (List.mem_filter.mpr ⟨List.mem_map_of_mem hy, ?_⟩)
      exact decide_eq_true hend
    · intro hcomplete
      refine hcut ?_
      simpa [Write.Complete, Send.write, Send.fill, Send.taken] using hcomplete
    · simp [Send.write, Send.fill, List.head?_replicate, hlen.ne']
  · intro hnothing sends' hshape
    obtain ⟨tr, t, hrun, hmap⟩ := sends_run inetAddr _ (hconn' hshape)
    refine ⟨tr, t, hrun, (prefixed_iff (hconn' hshape) hmap).mpr ?_⟩
    rintro pre x post rfl
    refine stream_prefix (unbroken_writesOf ?_ x.endpoint)
    rintro pre' y post' he
    refine hnothing.of_shape hshape pre' y (post' ++ post) ?_
    have happend := congrArg (· ++ post) he
    simpa using happend

end Contents

section Runs

/-- The client of `Sample` is connected through 4, and the server has a connection on 5. -/
def bothConnected : List (Endpoint × Action) :=
  bothStarted ++ [(.autotestServer, .accept 1 5 true)]

def ownFd : Endpoint → Fd
  | .autotestServer => 5
  | .autotestClient => 4

theorem bothConnected_connected :
    ∃ tr p, (processMachine fun _ => 0).run sampleProcess bothConnected = some (tr, p) ∧
      ∀ k, Connected p k (ownFd k) := by
  have hstate : ((processMachine fun _ => 0).run sampleProcess bothConnected).map (fun r =>
      (((r.2.interface .autotestServer).destroyed, (r.2.interface .autotestClient).destroyed),
        ((r.2.interface .autotestServer).world.ati.mCallback,
          (r.2.interface .autotestClient).world.ati.mCallback), (r.2.shared 5, r.2.shared 4))) =
      some ((false, false), (some ⟨myCallback, 5⟩, some ⟨myCallback, 4⟩),
        (some (.connection .autotestServer), some (.connection .autotestClient))) := rfl
  obtain ⟨⟨tr, p⟩, hrun, hp⟩ := Option.map_eq_some_iff.mp hstate
  simp only [Prod.mk.injEq] at hp
  obtain ⟨⟨hds, hdc⟩, ⟨hcs, hcc⟩, hfs, hfc⟩ := hp
  refine ⟨tr, p, hrun, fun k => ?_⟩
  cases k with
  | autotestServer => exact ⟨hds, hcs, hfs⟩
  | autotestClient => exact ⟨hdc, hcc, hfc⟩

/-- A failed write of nothing, whole messages of both endpoints, and a message that is cut last. -/
def cutLast : List Send :=
  [⟨.autotestClient, [], -1, by decide, by decide⟩,
    ⟨.autotestClient, [65, 66], 2, by decide, by decide⟩,
    ⟨.autotestServer, [67], 1, by decide, by decide⟩,
    ⟨.autotestClient, [68, 69], 1, by decide, by decide⟩]

theorem cutLast_prefixed :
    ∃ tr p, (processMachine fun _ => 0).run sampleProcess bothConnected = some (tr, p) ∧
      ∃ tr' t, (processMachine fun _ => 0).run p (cutLast.map Send.action) = some (tr', t) ∧
        Every (Prefixed ownFd) tr' := by
  obtain ⟨tr, p, hrun, hconn⟩ := bothConnected_connected
  have hall := (sent_prefix_iff (fun _ => 0) fun x (_ : x ∈ cutLast) => hconn x.endpoint).mpr
    (by decide +kernel)
  exact ⟨tr, p, hrun, hall cutLast rfl⟩

/-- A message that is cut and one that is sent after it. -/
def cutThenSent : List Send :=
  [⟨.autotestClient, [65, 66], 1, by decide, by decide⟩,
    ⟨.autotestClient, [67], 1, by decide, by decide⟩]

/-- The socket accepts the bytes 65 and 67. -/
theorem cutThenSent_not_prefixed :
    ∃ tr t, (processMachine fun _ => 0).run sampleProcess
        (bothConnected ++ cutThenSent.map Send.action) = some (tr, t) ∧
      ¬ Every (Prefixed ownFd) tr :=
  Machine.run_not_every (by decide +kernel)

end Runs
end AutoTest.SentStream
