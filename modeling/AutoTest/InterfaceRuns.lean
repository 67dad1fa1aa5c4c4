import AutoTest.ReceivedAnswers

/-!
# Runs of `getifaddrs`

Whatever the system answers, a run of `getifaddrs` on messages that the kernel may send touches
only memory that was received or allocated. A run that succeeds gives the entries of both answers,
and all that a run allocates is freed once, by itself or by `freeifaddrs`, but for a response
whose list item could not be allocated.
-/

namespace AutoTest.Netlink

open RecordWalks ByteBlocks ReleaseLedgers

/-- What the messages in two answers say. -/
def interfacesIn (libc : Libc) (socket : ℤ) (links addrs : List (List UInt8)) : List Interface :=
  interfaces (links.flatMap (selected libc socket .newlink))
    (addrs.flatMap (selected libc socket .newaddr))

/-- The list says what the answers say when the result is 0. Else it says an initial part of that,
and the last request for memory was refused. -/
inductive Says (libc : Libc) (socket : ℤ) (links addrs : List (List UInt8)) (list : List Ifaddrs)
    (r : Run) : ℤ → Prop
  | all (represents : List.Forall₂ (Represents list) list (interfacesIn libc socket links addrs)) :
      Says libc socket links addrs list r 0
  | part {is : List Interface} {n : ℕ} (initial : is <+: interfacesIn libc socket links addrs)
      (represents : List.Forall₂ (Represents list) list is)
      (denied : Denied libc r n) : Says libc socket links addrs list r (-1)

section Interpretation

theorem Says.of_granted {libc : Libc} {socket result : ℤ} {links addrs : List (List UInt8)}
    {list : List Ifaddrs} {r : Run} (h : Says libc socket links addrs list r result)
    (hgranted : ∀ k size, libc.granted k size = true) : result = 0 := by
  cases h with
  | all _ => rfl
  | part _ _ denied => exact absurd denied (not_denied hgranted)

variable {libc : Libc} {socket : ℤ} {links addrs : List Item} {base : List Held} {r : Run}

theorem messagesOf_eq (type : MessageType) (items : List Item) :
    messagesOf libc socket type items = (bytesOf items).flatMap (selected libc socket type) := by
  simp [messagesOf, bytesOf, List.flatMap_map]

theorem interfaces_nil (hdrs : List Cursor) : interfaces hdrs [] = hdrs.map linkInterface := by
  simp [interfaces, inetMessages]

theorem interfaces_prefix {hdrs done rest : List Cursor} (h : done <+: rest) :
    interfaces hdrs done <+: interfaces hdrs rest :=
  (List.prefix_append_right_inj _).mpr ((h.filter _).map _)

/-- Both answers are interpreted to the end, or up to an entry that there is no memory for. -/
theorem interpreted (hlinks : ∀ item ∈ links, Sound libc socket item.data.bytes)
    (haddrs : ∀ item ∈ addrs, Sound libc socket item.data.bytes) (hbooks : Books base r)
    (hgranted : ¬ Refused r) :
    ∃ numLinks list r₁ result list' r', interpretLinks libc socket links [] r =
        .ok (numLinks, list, r₁) ∧
      interpretRest libc socket addrs numLinks list r₁ = .ok (result, list', r') ∧
      Books (entryBlocks list' ++ base) r' ∧ ¬ Refused r' ∧ r'.receptions = r.receptions ∧
      Says libc socket (bytesOf links) (bytesOf addrs) list' r' result := by
  have hkept := keptByMalloc_books libc base r.receptions
  have hstart : Books (entryBlocks [] ++ base) r ∧ ¬ Refused r ∧ r.receptions = r.receptions :=
    ⟨hbooks, hgranted, rfl⟩
  have hin : interfacesIn libc socket (bytesOf links) (bytesOf addrs) =
      interfaces (messagesOf libc socket .newlink links)
        (messagesOf libc socket .newaddr addrs) := by
    rw [interfacesIn, messagesOf_eq, messagesOf_eq]
  rcases interpretLinks_spec hlinks hkept hstart with
    ⟨es, r₁, hrun, hentries, hA⟩ | ⟨es, r₁, done, n, hrun, hpre, hentries, hA, hdenied⟩
  · rw [List.nil_append] at hrun hA
    have hnum : ((messagesOf libc socket .newlink links).length : ℤ) ≠ -1 := by omega
    rcases interpretAddrs_spec haddrs hentries hkept hA with
      ⟨es', r', hrest, hentries', hA'⟩ |
        ⟨es', r', done, n, hrest, hpre, hentries', hA', hdenied⟩
    · refine ⟨_, _, _, _, _, _, hrun, (if_neg hnum).trans hrest, hA'.1, hA'.2.1, hA'.2.2, .all ?_⟩
      rw [hin]
      exact represents_interfaces hentries hentries'
    · refine ⟨_, _, _, _, _, _, hrun, (if_neg hnum).trans hrest, hA'.1,
        hA'.2.1, hA'.2.2, .part ?_ (represents_interfaces hentries hentries') hdenied⟩
      rw [hin]
      exact interfaces_prefix hpre
  · rw [List.nil_append] at hrun hA
    have hpart : List.Forall₂ (Represents (es ++ [])) (es ++ []) (interfaces done []) :=
      represents_interfaces hentries .nil
    rw [List.append_nil, interfaces_nil] at hpart
    refine ⟨_, _, _, _, _, _, hrun, if_pos rfl, hA.1, hA.2.1, hA.2.2, .part ?_ hpart hdenied⟩
    rw [hin]
    exact (hpre.map _).trans (List.prefix_append _ _)

end Interpretation

section Runs

variable {libc : Libc} {old : List Ifaddrs} {r r' : Run} {consumed : List Reception}
  {live leak : List Held}

/-- The answers to both requests, one behind the other in what was received. -/
structure Answers (libc : Libc) (consumed : List Reception) (links addrs : List (List UInt8)) :
    Prop where
  first : IsAnswer libc libc.socketRet links
  second : IsAnswer libc libc.socketRet addrs
  sublist : (links ++ addrs).Sublist (datagrams consumed)
  nothingLost : links ++ addrs = datagrams consumed ↔
    ∀ d ∈ datagrams consumed, d.length ≤ 4096

/-- Why there are no answers. -/
def Unanswered (libc : Libc) (consumed : List Reception) (r : Run) : Prop :=
  libc.socketRet < 0 ∨ libc.bindRet < 0 ∨ (∃ request, libc.sendtoRet request < 0) ∨
    Trouble libc libc.socketRet consumed r

/-- What `getifaddrs` does: it waits for answers that do not come, fails before it has both, or
makes a list of them. -/
inductive Listing (libc : Libc) (r : Run) :
    Except Halt (ℤ × Option (List Ifaddrs) × Run) → Prop
  | waiting (endless : ∀ links addrs, datagrams r.receptions = links ++ addrs →
      (∀ d ∈ datagrams r.receptions, d.length ≤ 4096) → IsAnswer libc libc.socketRet links →
      ¬ IsAnswer libc libc.socketRet addrs) : Listing libc r (.error .waiting)
  | failed {r' : Run} (consumed : List Reception) (leak : List Held) (books : Books leak r')
      (leaked : leak = [] ↔ ¬ Refused r') (split : r.receptions = consumed ++ r'.receptions)
      (cause : Unanswered libc consumed r') : Listing libc r (.ok (-1, some [], r'))
  | answered {result : ℤ} {list : List Ifaddrs} {r' : Run} (consumed : List Reception)
      (links addrs : List (List UInt8)) (books : Books (entryBlocks list) r')
      (granted : ¬ Refused r') (split : r.receptions = consumed ++ r'.receptions)
      (answers : Answers libc consumed links addrs)
      (meaning : Says libc libc.socketRet links addrs list r' result) :
      Listing libc r (.ok (result, some list, r'))

theorem refused_close (r : Run) (s : ℤ) : Refused (r.log [.close s]) ↔ Refused r := by
  simp [Refused, Run.log]

theorem Says.log {links addrs : List (List UInt8)} {list : List Ifaddrs} {socket result : ℤ}
    {calls : List Call} (h : Says libc socket links addrs list r result)
    (hcalls : requests calls = []) : Says libc socket links addrs list (r.log calls) result := by
  cases h with
  | all represents => exact .all represents
  | part initial represents denied => exact .part initial represents (denied.log hcalls)

theorem Books.start (hcalls : r.calls = []) : Books [] r := by
  refine ⟨?_, fun b _ => by rw [hcalls]; rfl⟩
  rw [hcalls]
  exact Effects.Ledger.nil

/-- The socket is closed when an answer is given up. -/
theorem Books.closeBehind {s : ℤ} (h : Books (live ++ [.socket s]) r) :
    Books live (r.log [.close s]) :=
  Books.close (h.perm (List.perm_append_comm))

theorem IsAnswer.exists_done {socket : ℤ} {ds : List (List UInt8)}
    (h : IsAnswer libc socket ds) : ∃ d ∈ ds, verdict libc socket d = .done := by
  obtain ⟨d, hd⟩ := Option.isSome_iff_exists.mp (List.getLast?_isSome.mpr h.nonempty)
  exact ⟨d, List.mem_of_getLast? hd, h.done d hd⟩

/-- The first of two answers, when no datagram is too long. -/
theorem first_answer {rest : List Reception} {first links addrs : List (List UInt8)}
    (hsplit : r.receptions = consumed ++ rest)
    (hfirst : IsAnswer libc libc.socketRet first)
    (hlost : first = datagrams consumed ↔ ∀ d ∈ datagrams consumed, d.length ≤ 4096)
    (hdata : datagrams r.receptions = links ++ addrs)
    (hshort : ∀ d ∈ datagrams r.receptions, d.length ≤ 4096)
    (hlinks : IsAnswer libc libc.socketRet links) : first = links ∧ datagrams rest = addrs := by
  have hall : datagrams r.receptions = datagrams consumed ++ datagrams rest := by
    rw [hsplit, datagrams_append]
  have heq := hlost.mpr fun d hd => hshort d (hall ▸ List.mem_append_left _ hd)
  have happ : first ++ datagrams rest = links ++ addrs := by rw [heq, ← hall, hdata]
  obtain rfl := hfirst.unique hlinks happ
  exact ⟨rfl, List.append_cancel_left happ⟩

/-- The answers are interpreted, and what held them is freed. -/
theorem closed_books {links addrs : List Item} {list : List Ifaddrs} {s : ℤ}
    (h : Books (entryBlocks list ++ (itemBlocks addrs ++ (itemBlocks links ++ [Held.socket s])))
      r) :
    Books (entryBlocks list)
      (r.log (freeResultList links ++ freeResultList addrs ++ [.close s])) := by
  have hperm :
      (entryBlocks list ++ (itemBlocks addrs ++ (itemBlocks links ++ [Held.socket s]))).Perm
      (itemBlocks links ++ (itemBlocks addrs ++ (entryBlocks list ++ [Held.socket s]))) := by
    refine List.perm_iff_count.mpr fun x => ?_
    simp only [List.count_append]
    omega
  rw [Run.log_append, Run.log_append]
  exact (h.perm hperm).freeResultList.freeResultList.closeBehind

/-- The part of `getifaddrs` behind the socket. -/
def listInterfaces (libc : Libc) (r : Run) : Except Halt (ℤ × Option (List Ifaddrs) × Run) :=
  (getResultList libc libc.socketRet rtmGetlink r).bind fun
  | (none, r) => .ok (-1, some [], r.log [.close libc.socketRet])
  | (some links, r) => (getResultList libc libc.socketRet rtmGetaddr r).bind fun
    | (none, r) => .ok (-1, some [], r.log (.close libc.socketRet :: freeResultList links))
    | (some addrs, r) => (interpretLinks libc libc.socketRet links [] r).bind fun
      | (numLinks, list, r) => (interpretRest libc libc.socketRet addrs numLinks list r).bind fun
        | (result, list, r) => .ok (result, some list, r.log
            (freeResultList links ++ freeResultList addrs ++ [.close libc.socketRet]))

theorem getifaddrs_bound (hsocket : ¬ libc.socketRet < 0) (hbind : ¬ libc.bindRet < 0) :
    getifaddrs libc (some old) r = listInterfaces libc (r.log [.socket libc.socketRet]) := by
  have hsock : netlinkSocket libc r = (libc.socketRet, r.log [.socket libc.socketRet]) := by
    rw [netlinkSocket, if_neg hsocket, if_neg hbind]
  rw [getifaddrs, hsock]
  dsimp only
  rw [if_neg hsocket]
  rfl

/-- The part of `getifaddrs` behind the answer about the links. -/
def listAddrs (libc : Libc) (links : List Item) (r : Run) :
    Except Halt (ℤ × Option (List Ifaddrs) × Run) :=
  (getResultList libc libc.socketRet rtmGetaddr r).bind fun
  | (none, r) => .ok (-1, some [], r.log (.close libc.socketRet :: freeResultList links))
  | (some addrs, r) => (interpretLinks libc libc.socketRet links [] r).bind fun
    | (numLinks, list, r) => (interpretRest libc libc.socketRet addrs numLinks list r).bind fun
      | (result, list, r) => .ok (result, some list, r.log
          (freeResultList links ++ freeResultList addrs ++ [.close libc.socketRet]))

theorem log_giveUp (r : Run) (links : List Item) (s : ℤ) :
    r.log (.close s :: freeResultList links) = (r.log [.close s]).log (freeResultList links) := by
  rw [← Run.log_append]
  rfl

/-- An answer about the addresses that is given up: the socket is closed first. -/
theorem Books.giveUp {links : List Item} {s : ℤ} (leak : List Held)
    (h : Books (leak ++ (itemBlocks links ++ [Held.socket s])) r) :
    Books leak (r.log (.close s :: Netlink.freeResultList links)) := by
  have hperm : (leak ++ (itemBlocks links ++ [Held.socket s])).Perm
      (itemBlocks links ++ leak ++ [Held.socket s]) := by
    refine List.perm_iff_count.mpr fun x => ?_
    simp only [List.count_append]
    omega
  rw [log_giveUp]
  exact (h.perm hperm).closeBehind.freeResultList

theorem refused_giveUp (r : Run) (links : List Item) (s : ℤ) :
    Refused (r.log (.close s :: freeResultList links)) ↔ Refused r := by
  rw [log_giveUp, refused_freeResultList, refused_close]

theorem refused_closed (r : Run) (links addrs : List Item) (s : ℤ) :
    Refused (r.log (freeResultList links ++ freeResultList addrs ++ [.close s])) ↔ Refused r := by
  rw [Run.log_append, Run.log_append, refused_close, refused_freeResultList,
    refused_freeResultList]

theorem requests_closed (links addrs : List Item) (s : ℤ) :
    requests (freeResultList links ++ freeResultList addrs ++ [.close s]) = [] := by
  rw [requests_append, requests_append, requests_freeResultList, requests_freeResultList]
  rfl

/-- The items of both answers, one behind the other. -/
theorem both_answers {first second : List Reception} {links addrs : List (List UInt8)}
    (hlinks : IsAnswer libc libc.socketRet links) (haddrs : IsAnswer libc libc.socketRet addrs)
    (hsub : links.Sublist (datagrams first)) (hsub' : addrs.Sublist (datagrams second))
    (hlost : links = datagrams first ↔ ∀ d ∈ datagrams first, d.length ≤ 4096)
    (hlost' : addrs = datagrams second ↔ ∀ d ∈ datagrams second, d.length ≤ 4096) :
    Answers libc (first ++ second) links addrs := by
  refine ⟨hlinks, haddrs, ?_, ?_⟩
  · rw [datagrams_append]
    exact hsub.append hsub'
  · rw [datagrams_append, List.forall_mem_append, ← hlost, ← hlost']
    constructor
    · intro heq
      have hlen := hsub.length_le
      have hlen' := hsub'.length_le
      have hcount := congrArg List.length heq
      rw [List.length_append, List.length_append] at hcount
      exact List.append_inj heq (by omega)
    · rintro ⟨rfl, rfl⟩
      rfl

theorem sound_items {items : List Item} {rest : List Reception}
    (hsound : ∀ d ∈ datagrams r.receptions, Sound libc libc.socketRet d)
    (hsplit : r.receptions = consumed ++ rest)
    (hsub : (bytesOf items).Sublist (datagrams consumed)) :
    ∀ item ∈ items, Sound libc libc.socketRet item.data.bytes := by
  intro item hitem
  have hmem : item.data.bytes ∈ datagrams consumed := hsub.subset (List.mem_map_of_mem hitem)
  refine hsound _ ?_
  rw [hsplit, datagrams_append]
  exact List.mem_append_left _ hmem

theorem listAddrs_listing {r₁ : Run} {links : List Item}
    (hsound : ∀ d ∈ datagrams r.receptions, Sound libc libc.socketRet d)
    (hbooks : Books (itemBlocks links ++ [Held.socket libc.socketRet]) r₁)
    (hgranted : ¬ Refused r₁) (hsplit : r.receptions = consumed ++ r₁.receptions)
    (hlinks : IsAnswer libc libc.socketRet (bytesOf links))
    (hsub : (bytesOf links).Sublist (datagrams consumed))
    (hlost : bytesOf links = datagrams consumed ↔ ∀ d ∈ datagrams consumed, d.length ≤ 4096) :
    Listing libc r (listAddrs libc links r₁) := by
  have hrest : ∀ d ∈ datagrams r₁.receptions, Sound libc libc.socketRet d := fun d hd =>
    hsound d (by
      rw [hsplit, datagrams_append]
      exact List.mem_append_right _ hd)
  have hwhole : ∀ d ∈ datagrams r₁.receptions, Whole d := fun d hd => (hrest d hd).whole
  rw [listAddrs]
  rcases getResultList_listed rtmGetaddr hwhole hbooks hgranted with
    hlisted | ⟨r₂, hret, hlist, hbooks₂, hgranted₂, hrs⟩
  · generalize getResultList libc libc.socketRet rtmGetaddr r₁ = result at hlisted ⊢
    cases hlisted with
    | waiting endless =>
      refine .waiting fun ls as hdata hshort hls has => ?_
      obtain ⟨-, hbehind⟩ := first_answer hsplit hlinks hlost hdata hshort hls
      obtain ⟨d, hd, hdone⟩ := has.exists_done
      have hmem : d ∈ datagrams r.receptions := hdata ▸ List.mem_append_right _ hd
      exact endless d (hbehind ▸ hd) (hshort d hmem) hdone
    | @failed r₂ consumed' leak books leaked split cause =>
      refine .failed (consumed ++ consumed') leak (books.giveUp leak) ?_ ?_
        (.inr (.inr (.inr (cause.behind.log (requests_freeResultList links)))))
      · rwa [refused_giveUp]
      · rw [hsplit, split, List.append_assoc]
        rfl
    | @got r₂ consumed' addrs books granted split answer sublist nothingLost =>
      rw [List.nil_append] at books ⊢
      obtain ⟨numLinks, list, r₃, result, list', r₄, hfirst, hsecond, hbooks₄, hgranted₄, hrs,
        hmeaning⟩ :=
        interpreted (sound_items hsound hsplit hsub) (sound_items hrest split sublist) books granted
      dsimp only [Except.bind]
      rw [hfirst]
      dsimp only
      rw [hsecond]
      refine .answered (consumed ++ consumed') _ _ (closed_books hbooks₄)
        ((refused_closed _ _ _ _).not.mpr hgranted₄) ?_
        (both_answers hlinks answer hsub sublist hlost nothingLost) 
        (hmeaning.log (requests_closed links addrs _))
      rw [hsplit, split, List.append_assoc]
      exact congrArg _ (congrArg _ hrs.symm)
  · rw [hlist]
    refine .failed consumed [] (hbooks₂.giveUp []) ?_ ?_
      (.inr (.inr (.inl ⟨_, hret⟩)))
    · simpa [refused_giveUp] using hgranted₂
    · rw [hsplit, hrs]
      rfl

theorem listInterfaces_listing
    (hsound : ∀ d ∈ datagrams r.receptions, Sound libc libc.socketRet d)
    (hbooks : Books [Held.socket libc.socketRet] r) (hgranted : ¬ Refused r) :
    Listing libc r (listInterfaces libc r) := by
  have hwhole : ∀ d ∈ datagrams r.receptions, Whole d := fun d hd => (hsound d hd).whole
  rw [listInterfaces]
  rcases getResultList_listed rtmGetlink hwhole hbooks hgranted with
    hlisted | ⟨r₁, hret, hlist, hbooks₁, hgranted₁, hrs⟩
  · generalize getResultList libc libc.socketRet rtmGetlink r = result at hlisted ⊢
    cases hlisted with
    | waiting endless =>
      refine .waiting fun links addrs hdata hshort hlinks _ => ?_
      obtain ⟨d, hd, hdone⟩ := hlinks.exists_done
      have hmem : d ∈ datagrams r.receptions := hdata ▸ List.mem_append_left _ hd
      exact endless d hmem (hshort d hmem) hdone
    | @failed r₁ consumed leak books leaked split cause =>
      refine .failed consumed leak books.closeBehind ?_ split
        (.inr (.inr (.inr (cause.log rfl))))
      rwa [refused_close]
    | @got r₁ consumed links books granted split answer sublist nothingLost =>
      rw [List.nil_append] at books ⊢
      exact listAddrs_listing hsound books granted split answer sublist nothingLost
  · rw [hlist]
    refine .failed [] [] hbooks₁.close ?_ hrs (.inr (.inr (.inl ⟨_, hret⟩)))
    simpa [refused_close] using hgranted₁

theorem Listing.of_receptions {result : Except Halt (ℤ × Option (List Ifaddrs) × Run)}
    (h : Listing libc r' result) (heq : r'.receptions = r.receptions) : Listing libc r result := by
  cases h with
  | waiting endless => exact .waiting (heq ▸ endless)
  | failed consumed leak books leaked split cause =>
    exact .failed consumed leak books leaked (heq ▸ split) cause
  | answered consumed links addrs books granted split answers meaning =>
    exact .answered consumed links addrs books granted (heq ▸ split) answers meaning

theorem getifaddrs_listing (hsound : ∀ d ∈ datagrams r.receptions, Sound libc libc.socketRet d)
    (hcalls : r.calls = []) : Listing libc r (getifaddrs libc (some old) r) := by
  have hstart := Books.start hcalls
  have hgranted : ¬ Refused r := by simp [Refused, hcalls]
  by_cases hsocket : libc.socketRet < 0
  · have hsock : netlinkSocket libc r = (-1, r.log [.socket libc.socketRet]) := by
      rw [netlinkSocket, if_pos hsocket]
    rw [getifaddrs, hsock]
    refine .failed [] [] (hstart.log _ ?_ ?_ ?_) ?_ rfl (.inl hsocket)
    · simp [effects, not_le.mpr hsocket]
    · simp [effects, not_le.mpr hsocket]
    · simp [effects, not_le.mpr hsocket]
    · simpa [Refused, Run.log] using hgranted
  · have hopened : Books [Held.socket libc.socketRet] (r.log [.socket libc.socketRet]) :=
      hstart.socket (not_lt.mp hsocket) (by rw [hcalls]; rfl)
    have hopenGranted : ¬ Refused (r.log [.socket libc.socketRet]) := by
      simpa [Refused, Run.log] using hgranted
    by_cases hbind : libc.bindRet < 0
    · have hsock : netlinkSocket libc r =
          (-1, (r.log [.socket libc.socketRet]).log [.close libc.socketRet]) := by
        rw [netlinkSocket, if_neg hsocket, if_pos hbind]
      rw [getifaddrs, hsock]
      refine .failed [] [] hopened.close ?_ rfl (.inr (.inl hbind))
      simpa [refused_close] using hopenGranted
    · rw [getifaddrs_bound hsocket hbind]
      have hlisting : Listing libc (r.log [.socket libc.socketRet])
          (listInterfaces libc (r.log [.socket libc.socketRet])) :=
        listInterfaces_listing hsound hopened hopenGranted
      exact hlisting.of_receptions rfl

/-- When both answers come, without an error and in datagrams that are not too long, a list is made
of them: an empty one when there is no memory for the answers. -/
theorem Listing.of_answers {res : Except Halt (ℤ × Option (List Ifaddrs) × Run)}
    {links addrs : List (List UInt8)} (h : Listing libc r res) (hsocket : 0 ≤ libc.socketRet)
    (hbind : 0 ≤ libc.bindRet) (hsend : ∀ n, 0 ≤ libc.sendtoRet n)
    (hfailed : .failed ∉ r.receptions) (hdata : datagrams r.receptions = links ++ addrs)
    (hshort : ∀ d ∈ datagrams r.receptions, d.length ≤ 4096)
    (hlinks : IsAnswer libc libc.socketRet links) (haddrs : IsAnswer libc libc.socketRet addrs) :
    ∃ result list r', res = .ok (result, some list, r') ∧
      Says libc libc.socketRet links addrs list r' result := by
  cases h with
  | waiting endless => exact absurd haddrs (endless links addrs hdata hshort hlinks)
  | @failed r' consumed leak books leaked split cause =>
    refine ⟨_, _, _, rfl, ?_⟩
    rcases cause with hneg | hneg | ⟨request, hneg⟩ | hfail | ⟨n, hdenied⟩ | ⟨d, hd, herror⟩
    · omega
    · omega
    · have := hsend request
      omega
    · exact absurd (split ▸ List.mem_append_left _ hfail) hfailed
    · exact .part (List.nil_prefix) .nil hdenied
    · have hmem : d ∈ links ++ addrs := by
        rw [← hdata, split, datagrams_append]
        exact List.mem_append_left _ hd
      exact absurd herror (by
        rcases List.mem_append.mp hmem with hd | hd
        · exact hlinks.no_error hd
        · exact haddrs.no_error hd)
  | @answered result list r' consumed links' addrs' books granted split answers meaning =>
    have hall : datagrams r.receptions = datagrams consumed ++ datagrams r'.receptions := by
      rw [split, datagrams_append]
    have heq := answers.nothingLost.mpr fun d hd => hshort d (hall ▸ List.mem_append_left _ hd)
    have happ : links' ++ (addrs' ++ datagrams r'.receptions) = links ++ (addrs ++ []) := by
      rw [← List.append_assoc, heq, ← hall, hdata, List.append_nil]
    obtain rfl := answers.first.unique hlinks happ
    obtain rfl := answers.second.unique haddrs (List.append_cancel_left happ)
    exact ⟨_, _, _, rfl, meaning⟩

end Runs

end AutoTest.Netlink
