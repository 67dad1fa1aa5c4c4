import AutoTest.RunAccounts

/-!
# What is received of an answer

`getNetlinkResponse` gives the first datagram that fits in its buffer, which grows with each one
that does not and is lost then. `getResultList` goes on until a response ends the answer.
-/

namespace AutoTest.Netlink

open RecordWalks ByteBlocks

variable {libc : Libc} {socket : ℤ} {c hdr : Cursor} {bytes : List UInt8} {live : List Held}
  {r r' : Run} {size fuel : ℕ} {rs : List Reception} {buffer : Option ℕ}

/-- The datagrams among what is received. -/
def datagrams (rs : List Reception) : List (List UInt8) :=
  rs.filterMap fun
    | .datagram bytes _ => some bytes
    | .interrupted | .failed => none

@[simp] theorem datagrams_append (rs rs' : List Reception) :
    datagrams (rs ++ rs') = datagrams rs ++ datagrams rs' := by
  simp [datagrams]

section Scans

inductive Verdict
  | more
  | done
  | error
  deriving DecidableEq

/-- How the loop over the messages ends. -/
def Verdict.result : Verdict → Bool ⊕ Unit
  | .more => .inl false
  | .done => .inl true
  | .error => .inr ()

/-- What a response means for its answer: the first of its messages that ends an answer or is an
error says so. `ours` are the messages that are looked at. -/
def verdictOf (ours : Cursor → Bool) (type : Cursor → MessageType) : List Cursor → Verdict
  | [] => .more
  | hdr :: rest =>
    if ours hdr then
      match type hdr with
      | .done => .done
      | .error => .error
      | .newlink | .newaddr | .other => verdictOf ours type rest
    else verdictOf ours type rest

def verdict (libc : Libc) (socket : ℤ) (bytes : List UInt8) : Verdict :=
  verdictOf (fun hdr => IsOurs libc socket hdr) typeOf (messagesIn bytes)

/-- The body of the loop, for a message that can be read. -/
def scanStep (ours : Bool) (type : MessageType) (done : Bool) : LoopStep Bool Unit :=
  if ours then
    match type with
    | .done => .leave true
    | .error => .exit ()
    | .newlink | .newaddr | .other => .next done
  else .next done

theorem scanMessage_eq (h : nlmsg.Inside c hdr) (done : Bool) :
    scanMessage libc socket done hdr =
      .ok (scanStep (IsOurs libc socket hdr) (typeOf hdr) done) := by
  rw [scanMessage, ours_eq h, ok_bind]
  generalize decide (IsOurs libc socket hdr) = ours
  cases ours with
  | false => rfl
  | true =>
    rw [if_pos rfl, messageType_eq h, ok_bind]
    generalize typeOf hdr = type
    cases type <;> rfl

theorem scan_run {body : Bool → Cursor → Except Halt (LoopStep Bool Unit)}
    {ours : Cursor → Bool} {type : Cursor → MessageType} {hdrs : List Cursor}
    (h : ∀ hdr ∈ hdrs, body false hdr = .ok (scanStep (ours hdr) (type hdr) false)) :
    run body (.ok ()) hdrs false = .ok (verdictOf ours type hdrs).result := by
  induction hdrs with
  | nil => rfl
  | cons hdr rest ih =>
    have hrest := ih fun hdr' hmem => h hdr' (List.mem_cons_of_mem _ hmem)
    rw [run, h hdr (List.mem_cons_self ..), verdictOf]
    cases ours hdr with
    | false => exact hrest
    | true => cases type hdr with
      | done | error => rfl
      | newlink | newaddr | other => exact hrest

theorem scan_eq (h : Whole bytes) :
    nlmsg.each .fault (scanMessage libc socket) ⟨bytes, bytes.length⟩ false =
      .ok (verdict libc socket bytes).result := by
  rw [Format.each, (Format.walk_inside h.aligned).1]
  exact scan_run fun hdr hmem => scanMessage_eq (h.inside hmem) false

end Scans

section Receptions

/-- What one call of `netlink_recv` does. -/
inductive Received (len : ℕ) (rs : List Reception) :
    Except Halt (ℤ × List UInt8 × List Reception) → Prop
  | waiting (empty : datagrams rs = []) : Received len rs (.error .waiting)
  | failed (consumed : List Reception) {rest : List Reception} (split : rs = consumed ++ rest)
      (mem : .failed ∈ consumed) : Received len rs (.ok (-2, [], rest))
  | cut (consumed : List Reception) {rest : List Reception} {bytes : List UInt8}
      (split : rs = consumed ++ rest) (one : datagrams consumed = [bytes])
      (long : len < bytes.length) : Received len rs (.ok (-1, bytes.take len, rest))
  | whole (consumed : List Reception) {rest : List Reception} {bytes : List UInt8}
      (split : rs = consumed ++ rest) (one : datagrams consumed = [bytes])
      (fits : bytes.length ≤ len) : Received len rs (.ok (bytes.length, bytes, rest))

theorem netlinkRecv_received (len : ℕ) (rs : List Reception) :
    Received len rs (netlinkRecv len rs) := by
  induction rs with
  | nil => exact .waiting rfl
  | cons reception rs ih =>
    cases reception with
    | failed => exact .failed [.failed] rfl (List.mem_singleton_self _)
    | interrupted =>
      rw [netlinkRecv]
      generalize netlinkRecv len rs = received at ih ⊢
      cases ih with
      | waiting empty => exact .waiting empty
      | @failed consumed rest split mem =>
        exact .failed (.interrupted :: consumed) (congrArg (List.cons _) split)
          (List.mem_cons_of_mem _ mem)
      | @cut consumed rest bytes split one long =>
        exact .cut (.interrupted :: consumed) (congrArg (List.cons _) split) one long
      | @whole consumed rest bytes split one fits =>
        exact .whole (.interrupted :: consumed) (congrArg (List.cons _) split) one fits
    | datagram bytes lt =>
      rw [netlinkRecv]
      by_cases hlong : bytes.length > len
      · rw [if_pos hlong]
        exact .cut [.datagram bytes lt] rfl rfl hlong
      · rw [if_neg hlong]
        exact .whole [.datagram bytes lt] rfl rfl (Nat.not_lt.mp hlong)

end Receptions

section Responses

/-- Why an answer is given up: `recvmsg` failed, some memory could not be allocated, or an error
was received. -/
def Trouble (libc : Libc) (socket : ℤ) (consumed : List Reception) (r : Run) : Prop :=
  .failed ∈ consumed ∨ (∃ n, Denied libc r n) ∨
    ∃ d ∈ datagrams consumed, verdict libc socket d = .error

theorem Trouble.behind {rs' : List Reception} (h : Trouble libc socket rs' r) :
    Trouble libc socket (rs ++ rs') r := by
  rcases h with hfailed | hdenied | ⟨d, hd, herror⟩
  · exact .inl (List.mem_append_right _ hfailed)
  · exact .inr (.inl hdenied)
  · refine .inr (.inr ⟨d, ?_, herror⟩)
    rw [datagrams_append]
    exact List.mem_append_right _ hd

theorem Trouble.log {calls : List Call} (h : Trouble libc socket rs r)
    (hcalls : requests calls = []) : Trouble libc socket rs (r.log calls) := by
  rcases h with hfailed | ⟨n, hn⟩ | herror
  · exact .inl hfailed
  · exact .inr (.inl ⟨n, hn.log hcalls⟩)
  · exact .inr (.inr herror)

/-- What `getNetlinkResponse` does: from a buffer of `size` bytes on it waits while what comes is
too long, fails, or gives the first datagram that fits. -/
inductive Responded (libc : Libc) (socket : ℤ) (size : ℕ) (live : List Held) (r : Run) :
    Except Halt (Option Response × Bool × Run) → Prop
  | waiting (long : ∀ d ∈ datagrams r.receptions, size < d.length) :
      Responded libc socket size live r (.error .waiting)
  | failed {r' : Run} (consumed : List Reception) (books : Books live r')
      (granted : ¬ Refused r') (split : r.receptions = consumed ++ r'.receptions)
      (cause : Trouble libc socket consumed r') :
      Responded libc socket size live r (.ok (none, false, r'))
  | got {r' : Run} {response : Response} {done : Bool} (consumed : List Reception)
      (lost : List (List UInt8)) (books : Books (.block response.block :: live) r')
      (granted : ¬ Refused r')
      (split : r.receptions = consumed ++ r'.receptions)
      (received : datagrams consumed = lost ++ [response.bytes])
      (fits : lost = [] → response.bytes.length ≤ size) (long : ∀ d ∈ lost, size < d.length)
      (judged : verdict libc socket response.bytes = if done then .done else .more) :
      Responded libc socket size live r (.ok (some response, done, r'))

/-- A datagram that is too long is lost, and the buffer is twice as large for the next one. -/
theorem Responded.lose {consumed : List Reception} {d : List UInt8} {calls : List Call}
    {mallocs : ℕ} {result : Except Halt (Option Response × Bool × Run)}
    (h : Responded libc socket (size * 2) live ⟨rs, mallocs, calls⟩ result)
    (split : r.receptions = consumed ++ rs) (one : datagrams consumed = [d])
    (hlong : size < d.length) : Responded libc socket size live r result := by
  cases h with
  | waiting long =>
    refine .waiting fun d' hd' => ?_
    rw [split, datagrams_append, one, List.singleton_append] at hd'
    rcases List.mem_cons.mp hd' with rfl | hd'
    · exact hlong
    · have := long d' hd'
      omega
  | @failed r' consumed' books granted split' cause =>
    refine .failed (consumed ++ consumed') books granted ?_ cause.behind
    rw [split, List.append_assoc]
    exact congrArg _ split'
  | @got r' response done consumed' lost books granted split' received fits long judged =>
    refine .got (consumed ++ consumed') (d :: lost) books granted ?_ ?_ nofun
      (fun d' hd' => ?_) judged
    · rw [split, List.append_assoc]
      exact congrArg _ split'
    · rw [datagrams_append, one, received]
      rfl
    · rcases List.mem_cons.mp hd' with rfl | hd'
      · exact hlong
      · have := long d' hd'
        omega

theorem Refused.malloc {ret : Option ℕ} (h : ¬ Refused r) (hsize : sizeofNetlinkList < size)
    (hm : malloc libc size r = (ret, r')) : ¬ Refused r' := by
  obtain ⟨rfl, -⟩ := malloc_eq hm
  simpa [Refused, hsize.ne] using h

theorem refused_free (r : Run) (ptr : Option ℕ) : Refused (r.log [.free ptr]) ↔ Refused r := by
  simp [Refused, Run.log]

theorem netlinkResponse_responded (hwhole : ∀ d ∈ datagrams r.receptions, Whole d)
    (hfuel : r.receptions.length < fuel) (hbooks : Books (buffer.toList.map .block ++ live) r)
    (hgranted : ¬ Refused r) (hsize : sizeofNetlinkList < size) (hlt : size < 2 ^ 32) :
    Responded libc socket size live r (netlinkResponse libc socket fuel size buffer r) := by
  induction fuel generalizing size buffer r with
  | zero => omega
  | succ fuel ih =>
    have hfreed := hbooks.free
    have hfreeGranted := (refused_free r buffer).not.mpr hgranted
    rw [netlinkResponse]
    cases hm : malloc libc size (r.log [.free buffer]) with
    | mk ret r₁ =>
      have hmalloc := hfreed.malloc hm
      have hgranted₁ := Refused.malloc hfreeGranted hsize hm
      obtain ⟨hr₁, -⟩ := malloc_eq hm
      have hrs : r₁.receptions = r.receptions := by rw [hr₁]; rfl
      cases ret with
      | none =>
        exact .failed [] hmalloc hgranted₁ hrs.symm
          (.inr (.inl ⟨size, .of_malloc (malloc_none (by omega) hm) hm⟩))
      | some block =>
        have hrecv := netlinkRecv_received size r₁.receptions
        dsimp only
        generalize netlinkRecv size r₁.receptions = received at hrecv ⊢
        rw [hrs] at hrecv
        cases hrecv with
        | waiting empty => exact .waiting (by simp [empty])
        | @failed consumed rest split mem =>
          refine .failed consumed (Books.free ?_) ((refused_free _ _).not.mpr ?_) split (.inl mem)
          · exact hmalloc.receive rest
          · exact hgranted₁
        | @cut consumed rest bytes split one long =>
          have hmem : ∀ d ∈ datagrams rest, Whole d := fun d hd => hwhole d (by
            rw [split, datagrams_append]
            exact List.mem_append_right _ hd)
          have hlen : rest.length < fuel := by
            have hpos : consumed ≠ [] := by
              rintro rfl
              cases one
            have := List.length_pos_iff.mpr hpos
            rw [split, List.length_append] at hfuel
            omega
          have hnext : Responded libc socket (size * 2) live { r₁ with receptions := rest }
              (netlinkResponse libc socket fuel (size * 2) (some block)
                { r₁ with receptions := rest }) :=
            ih hmem hlen (hmalloc.receive rest) hgranted₁ (by omega) (by
              -- the buffer was too small for a datagram, and no datagram is that long
              have hbytes : bytes ∈ datagrams r.receptions := by
                rw [split, datagrams_append, one]
                exact List.mem_append_left _ (List.mem_singleton_self _)
              have := (hwhole bytes hbytes).lt
              omega)
          exact hnext.lose split one long
        | @whole consumed rest bytes split one fits =>
          have hbytes : Whole bytes := hwhole bytes (by
            rw [split, datagrams_append, one]
            simp)
          have hpos : (0 : ℤ) ≤ bytes.length := by omega
          have hne : (bytes.length : ℤ) ≠ -2 := by omega
          rw [ok_bind]
          dsimp only
          rw [if_neg hne, if_pos hpos, scan_eq hbytes, ok_bind]
          cases hverdict : verdict libc socket bytes with
          | error =>
            refine .failed consumed (Books.free ?_) ((refused_free _ _).not.mpr ?_) split
              (.inr (.inr ⟨bytes, by simp [one], hverdict⟩))
            · exact hmalloc.receive rest
            · exact hgranted₁
          | more | done =>
            exact .got consumed [] (hmalloc.receive rest) hgranted₁ split one (fun _ => fits) nofun
              hverdict

end Responses

section Answers

variable {list : List Item}

/-- The bytes of the items. -/
def bytesOf (items : List Item) : List (List UInt8) := items.map (·.data.bytes)

/-- The responses of an answer: only the last one ends it. -/
structure IsAnswer (libc : Libc) (socket : ℤ) (responses : List (List UInt8)) : Prop where
  more : ∀ d ∈ responses.dropLast, verdict libc socket d = .more
  done : ∀ d ∈ responses.getLast?, verdict libc socket d = .done
  nonempty : responses ≠ []

/-- What `getResultList` does from the items on that it has: it waits for an answer that does not
end, fails, or gives the items of an answer. When a list item cannot be allocated its response is
not freed. -/
inductive Listed (libc : Libc) (socket : ℤ) (live : List Held) (list : List Item) (r : Run) :
    Except Halt (Option (List Item) × Run) → Prop
  | waiting (endless : ∀ d ∈ datagrams r.receptions, d.length ≤ 4096 →
      verdict libc socket d ≠ .done) : Listed libc socket live list r (.error .waiting)
  | failed {r' : Run} (consumed : List Reception) (leak : List Held)
      (books : Books (leak ++ live) r') (leaked : leak = [] ↔ ¬ Refused r') (split : r.receptions = consumed ++ r'.receptions)
      (cause : Trouble libc socket consumed r') :
      Listed libc socket live list r (.ok (none, r'))
  | got {r' : Run} (consumed : List Reception) (items : List Item)
      (books : Books (itemBlocks (list ++ items) ++ live) r') (granted : ¬ Refused r')
      (split : r.receptions = consumed ++ r'.receptions)
      (answer : IsAnswer libc socket (bytesOf items))
      (sublist : (bytesOf items).Sublist (datagrams consumed))
      (nothingLost : bytesOf items = datagrams consumed ↔
        ∀ d ∈ datagrams consumed, d.length ≤ 4096) :
      Listed libc socket live list r (.ok (some (list ++ items), r'))

/-- A first response that does not end the answer. -/
theorem IsAnswer.cons {d : List UInt8} {ds : List (List UInt8)} (h : IsAnswer libc socket ds)
    (hd : verdict libc socket d = .more) : IsAnswer libc socket (d :: ds) := by
  obtain ⟨e, es, rfl⟩ := List.exists_cons_of_ne_nil h.nonempty
  refine ⟨fun d' hd' => ?_, h.done, nofun⟩
  rw [List.dropLast_cons_cons] at hd'
  rcases List.mem_cons.mp hd' with rfl | hd'
  · exact hd
  · exact h.more d' hd'

/-- What was received first: the lost datagrams and one that fits. -/
theorem lost_iff {lost : List (List UInt8)} {d : List UInt8} (fits : lost = [] → d.length ≤ 4096)
    (long : ∀ d ∈ lost, 4096 < d.length) :
    lost = [] ↔ ∀ d' ∈ lost ++ [d], d'.length ≤ 4096 := by
  constructor
  · rintro rfl
    simpa using fits rfl
  · intro h
    refine List.eq_nil_iff_forall_not_mem.mpr fun d' hd' => ?_
    have hle := h d' (List.mem_append_left _ hd')
    have hlt := long d' hd'
    omega

@[simp] theorem requests_freeResultList (items : List Item) :
    requests (freeResultList items) = [] := by
  induction items with
  | nil => rfl
  | cons item rest ih => exact ih

theorem refused_freeResultList (r : Run) (items : List Item) :
    Refused (r.log (freeResultList items)) ↔ Refused r := by
  induction items generalizing r with
  | nil => rw [freeResultList, Run.log_nil]
  | cons item rest ih =>
    have hfree : freeResultList (item :: rest) =
        [.free (some item.data.block)] ++ ([.free (some item.block)] ++ freeResultList rest) := rfl
    rw [hfree, Run.log_append, Run.log_append, ih, refused_free, refused_free]

/-- The rest of an answer behind its first response. -/
theorem Listed.behind {item : Item} {consumed : List Reception} {lost : List (List UInt8)}
    {calls : List Call} {mallocs : ℕ} {result : Except Halt (Option (List Item) × Run)}
    (h : Listed libc socket live (list ++ [item]) ⟨rs, mallocs, calls⟩ result)
    (split : r.receptions = consumed ++ rs)
    (received : datagrams consumed = lost ++ [item.data.bytes])
    (fits : lost = [] → item.data.bytes.length ≤ 4096) (long : ∀ d ∈ lost, 4096 < d.length)
    (hmore : verdict libc socket item.data.bytes = .more) :
    Listed libc socket live list r result := by
  cases h with
  | waiting endless =>
    refine .waiting fun d hd hle => ?_
    rw [split, datagrams_append, received] at hd
    rcases List.mem_append.mp hd with hd | hd
    · rcases List.mem_append.mp hd with hd | hd
      · have := long d hd
        omega
      · rw [List.mem_singleton.mp hd, hmore]
        decide
    · exact endless d hd hle
  | @failed r' consumed' leak books leaked split' cause =>
    refine .failed (consumed ++ consumed') leak books leaked ?_ cause.behind
    rw [split, List.append_assoc]
    exact congrArg _ split'
  | @got r' consumed' items books granted split' answer sublist nothingLost =>
    have happ : list ++ [item] ++ items = list ++ item :: items := by simp
    rw [happ] at books ⊢
    have hall : datagrams (consumed ++ consumed') =
        lost ++ item.data.bytes :: datagrams consumed' := by
      rw [datagrams_append, received, List.append_assoc]
      rfl
    refine .got (consumed ++ consumed') (item :: items) books granted ?_ (answer.cons hmore) ?_ ?_
    · rw [split, List.append_assoc]
      exact congrArg _ split'
    · rw [hall]
      exact (sublist.cons_cons _).trans (List.sublist_append_right _ _)
    · have hlen := sublist.length_le
      rw [hall, bytesOf, List.map_cons]
      constructor
      · intro heq
        have hcount := congrArg List.length heq
        rw [List.length_append, List.length_cons, List.length_cons] at hcount
        have hnil : lost = [] := by
          refine List.length_eq_zero_iff.mp ?_
          change (bytesOf items).length + 1 = _ at hcount
          omega
        rw [hnil, List.nil_append] at heq ⊢
        have hrest := nothingLost.mp (List.cons.inj heq).2
        intro d hd
        rcases List.mem_cons.mp hd with rfl | hd
        · exact fits hnil
        · exact hrest d hd
      · intro hle
        have hnil : lost = [] := (lost_iff fits long).mpr fun d hd => hle d (by
          simp only [List.mem_append, List.mem_cons] at hd ⊢
          tauto)
        rw [hnil, List.nil_append] at hle ⊢
        have hrest := nothingLost.mpr fun d hd => hle d (List.mem_cons_of_mem _ hd)
        rw [← hrest]
        rfl

theorem resultList_listed (hwhole : ∀ d ∈ datagrams r.receptions, Whole d)
    (hfuel : r.receptions.length < fuel) (hbooks : Books (itemBlocks list ++ live) r)
    (hgranted : ¬ Refused r) :
    Listed libc socket live list r (resultList libc socket fuel list r) := by
  induction fuel generalizing list r with
  | zero => omega
  | succ fuel ih =>
    have hresp : Responded libc socket 4096 (itemBlocks list ++ live) r
        (getNetlinkResponse libc socket r) :=
      netlinkResponse_responded hwhole (Nat.lt_succ_self _) hbooks hgranted (by decide) (by decide)
    rw [resultList]
    generalize getNetlinkResponse libc socket r = response at hresp ⊢
    cases hresp with
    | waiting long =>
      refine .waiting fun d hd hle => ?_
      have := long d hd
      omega
    | @failed r' consumed books granted split cause =>
      refine .failed consumed [] books.freeResultList ?_ split
        (cause.log (requests_freeResultList list))
      simpa [refused_freeResultList] using granted
    | @got r' response done consumed lost books granted split received fits long judged =>
      rw [ok_bind]
      dsimp only [newListItem]
      cases hm : malloc libc sizeofNetlinkList r' with
      | mk ret r₂ =>
        have hmalloc := books.malloc hm
        obtain ⟨hr₂, -⟩ := malloc_eq hm
        have hrs : r₂.receptions = r'.receptions := by rw [hr₂]
        cases ret with
        | none =>
          have hdenied : Denied libc r₂ sizeofNetlinkList :=
            .of_malloc (malloc_none (by decide) hm) hm
          refine .failed consumed [.block response.block] (Books.freeResultList ?_) ?_
            (by rw [split]; exact congrArg _ hrs.symm)
            (.inr (.inl ⟨_, hdenied.log (requests_freeResultList list)⟩))
          · exact hmalloc.perm List.perm_middle.symm
          · have hrefused : Refused r₂ := by
              rw [hr₂]
              exact List.mem_append_right _ (List.mem_singleton_self _)
            simpa [refused_freeResultList] using hrefused
        | some block =>
          have hgranted₂ : ¬ Refused r₂ := by
            rw [hr₂]
            simpa [Refused] using granted
          have hitems : Books (itemBlocks (list ++ [⟨block, response⟩]) ++ live) r₂ := by
            refine hmalloc.perm ?_
            simp only [itemBlocks, List.flatMap_append, List.flatMap_cons, List.flatMap_nil,
              List.append_nil, Option.toList_some, List.map_cons, List.map_nil,
              List.append_assoc, List.cons_append, List.nil_append]
            exact (List.Perm.swap _ _ _).trans (List.perm_append_comm_assoc
              [Held.block response.block, Held.block block] _ _)
          have hsplit : r.receptions = consumed ++ r₂.receptions := by rw [hrs, split]
          dsimp only
          cases done with
          | true =>
            rw [if_pos rfl]
            refine .got consumed [⟨block, response⟩] hitems hgranted₂ hsplit
              ⟨by simp [bytesOf], by simpa [bytesOf] using judged, by simp [bytesOf]⟩ ?_ ?_
            · rw [received]
              exact List.sublist_append_right _ _
            · have hone : bytesOf [⟨block, response⟩] = datagrams consumed ↔ lost = [] := by
                rw [received]
                constructor
                · intro heq
                  have hcount := congrArg List.length heq
                  refine List.length_eq_zero_iff.mp ?_
                  simpa [bytesOf] using hcount
                · rintro rfl
                  rfl
              rw [hone, received]
              exact lost_iff fits long
          | false =>
            have hmem : ∀ d ∈ datagrams r₂.receptions, Whole d := fun d hd => hwhole d (by
              rw [hsplit, datagrams_append]
              exact List.mem_append_right _ hd)
            have hlen : r₂.receptions.length < fuel := by
              have hpos : consumed ≠ [] := by
                rintro rfl
                simp [datagrams] at received
              have := List.length_pos_iff.mpr hpos
              rw [hsplit, List.length_append] at hfuel
              omega
            rw [if_neg (by decide)]
            exact (ih hmem hlen hitems hgranted₂).behind hsplit received fits long judged

/-- The answer to a request, if it can be sent. -/
theorem getResultList_listed (request : ℕ) (hwhole : ∀ d ∈ datagrams r.receptions, Whole d)
    (hbooks : Books live r) (hgranted : ¬ Refused r) :
    Listed libc socket live [] r (getResultList libc socket request r) ∨
      ∃ r', libc.sendtoRet request < 0 ∧ getResultList libc socket request r = .ok (none, r') ∧
        Books live r' ∧ ¬ Refused r' ∧ r.receptions = r'.receptions := by
  have hsent := hbooks.sendto socket (requestMessage socket request)
  have hsentGranted : ¬ Refused (r.log [.sendto socket (requestMessage socket request)]) := by
    simpa [Refused, Run.log] using hgranted
  have heq : getResultList libc socket request r =
      if libc.sendtoRet request < 0 then
        .ok (none, r.log [.sendto socket (requestMessage socket request)])
      else
        resultList libc socket (r.receptions.length + 1) []
          (r.log [.sendto socket (requestMessage socket request)]) := rfl
  rw [heq]
  by_cases hret : libc.sendtoRet request < 0
  · rw [if_pos hret]
    exact .inr ⟨_, hret, rfl, hsent, hsentGranted, rfl⟩
  · rw [if_neg hret]
    have hlisted : Listed libc socket live []
        (r.log [.sendto socket (requestMessage socket request)])
        (resultList libc socket (r.receptions.length + 1) []
          (r.log [.sendto socket (requestMessage socket request)])) :=
      resultList_listed hwhole (Nat.lt_succ_self _) hsent hsentGranted
    refine .inl ?_
    generalize resultList libc socket _ _ _ = result at hlisted ⊢
    cases hlisted with
    | waiting endless => exact .waiting endless
    | failed consumed leak books leaked split cause =>
      exact .failed consumed leak books leaked split cause
    | got consumed items books granted split answer sublist nothingLost =>
      exact .got consumed items books granted split answer sublist nothingLost

theorem IsAnswer.no_error {ds : List (List UInt8)} (h : IsAnswer libc socket ds) {d : List UInt8}
    (hd : d ∈ ds) : verdict libc socket d ≠ .error := by
  rcases List.eq_nil_or_concat ds with rfl | ⟨front, last, rfl⟩
  · cases hd
  · rw [List.concat_eq_append] at hd h
    rcases List.mem_append.mp hd with hd | hd
    · have hmore := h.more d (by simpa using hd)
      simp [hmore]
    · have hdone := h.done last (by simp)
      simp [List.mem_singleton.mp hd, hdone]

/-- An answer has no other one in front of it. -/
theorem IsAnswer.unique {as bs as' bs' : List (List UInt8)} (h : IsAnswer libc socket as)
    (h' : IsAnswer libc socket bs) (heq : as ++ as' = bs ++ bs') : as = bs := by
  have hlonger {as bs cs : List (List UInt8)} (h : IsAnswer libc socket as)
      (h' : IsAnswer libc socket bs) (hcs : as = bs ++ cs) : cs = [] := by
    by_contra hne
    obtain ⟨d, hd⟩ := Option.isSome_iff_exists.mp (List.getLast?_isSome.mpr h'.nonempty)
    have hdone := h'.done d hd
    have hmem : d ∈ as.dropLast := by
      rw [hcs, List.dropLast_append_of_ne_nil hne]
      exact List.mem_append_left _ (List.mem_of_getLast? hd)
    rw [h.more d hmem] at hdone
    cases hdone
  rcases List.append_eq_append_iff.mp heq with ⟨cs, hbs, -⟩ | ⟨cs, has, -⟩
  · rw [hbs, hlonger h' h hbs, List.append_nil]
  · rw [has, hlonger h h' has, List.append_nil]

end Answers

end AutoTest.Netlink
