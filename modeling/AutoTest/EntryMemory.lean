import AutoTest.InterfaceEntries
import Mathlib.Algebra.Group.Action.Defs
import Mathlib.Algebra.Order.BigOperators.Group.List
import Mathlib.Data.List.TakeWhile

/-!
# The memory of an entry

What the two passes over the attributes of a message do to the block of its entry. The second
pass stays inside of what the first one measured, and no write changes what an earlier pointer
of the entry points to.
-/

namespace AutoTest.Netlink

open RecordWalks ByteBlocks

section Accesses

variable {bytes : List UInt8} {b : Block} {off n : ℕ} {data : List UInt8}

theorem read_of_le (h : off + n ≤ bytes.length) :
    read bytes off n = .ok ((bytes.drop off).take n) := if_pos h

theorem field_of_le (h : off + n ≤ bytes.length) :
    field bytes off n = .ok (leNat ((bytes.drop off).take n)) := by
  rw [field, read_of_le h]
  rfl

theorem put_spec (b : Block) (off : ℕ) (data : List UInt8) (h : off + data.length ≤ b.length) :
    ∃ b', put b off data = .ok b' ∧ HasAt b' off data ∧ ChangedIn b b' off (off + data.length) := by
  obtain ⟨b', hstore⟩ := store_isSome h
  exact ⟨b', by rw [put, hstore], .of_store hstore, .of_store hstore⟩

theorem get_of_hasAt (h : HasAt b off data) (hle : off + data.length ≤ b.length) :
    get b off data.length = .ok data := by
  rw [get, h.load hle]

/-- A C string: the bytes in front of the first terminator. -/
def cText (data : List UInt8) : List UInt8 := data.takeWhile (· ≠ 0)

theorem length_cText_le (data : List UInt8) : (cText data).length ≤ data.length :=
  (List.takeWhile_prefix _).length_le

theorem strncpy_of_le (h : n ≤ bytes.length) :
    strncpy bytes n = .ok (cText (bytes.take n) ++
      List.replicate (n - (cText (bytes.take n)).length) 0) := by
  rw [strncpy]
  exact if_pos (.inr h)

end Accesses

section Requests

variable {libc : Libc} {size : ℕ} {ret : Option ℕ} {r r' : Run} {calls calls' : List Call}

theorem malloc_eq (h : malloc libc size r = (ret, r')) :
    r' = { r with mallocs := r.mallocs + 1, calls := r.calls ++ [.malloc size ret] } ∧
      ∀ block ∈ ret, block = r.mallocs := by
  unfold malloc at h
  dsimp only at h
  obtain ⟨rfl, rfl⟩ := Prod.mk.inj h
  refine ⟨rfl, fun block hblock => ?_⟩
  split at hblock
  · exact (Option.mem_some.mp hblock).symm
  · cases hblock

theorem malloc_none (hlt : size < 2 ^ 63) (hm : malloc libc size r = (none, r')) :
    libc.granted r.mallocs size = false := by
  by_contra hgranted
  unfold malloc at hm
  dsimp only at hm
  rw [if_pos ⟨hlt, by simpa using hgranted⟩] at hm
  cases hm

theorem malloc_some {block : ℕ} (hm : malloc libc size r = (some block, r')) :
    libc.granted r.mallocs size = true := by
  by_contra hgranted
  unfold malloc at hm
  dsimp only at hm
  rw [if_neg fun hboth => hgranted hboth.2] at hm
  cases hm

/-- The sizes that were asked for, in order, each with what `malloc` returned. -/
def requests (calls : List Call) : List (ℕ × Option ℕ) :=
  calls.filterMap fun
    | .malloc size ret => some (size, ret)
    | .free _ | .socket _ | .sendto _ _ | .close _ => none

theorem requests_append (calls calls' : List Call) :
    requests (calls ++ calls') = requests calls ++ requests calls' := by
  simp [requests]

/-- The last request for memory, the one with the number `r.mallocs - 1`, was refused. -/
structure Denied (libc : Libc) (r : Run) (size : ℕ) : Prop where
  last : (requests r.calls).getLast? = some (size, none)
  refused : libc.granted (r.mallocs - 1) size = false

theorem Denied.of_malloc (hrefused : libc.granted r.mallocs size = false)
    (hm : malloc libc size r = (none, r')) : Denied libc r' size := by
  obtain ⟨rfl, -⟩ := malloc_eq hm
  refine ⟨?_, hrefused⟩
  rw [requests_append]
  exact List.getLast?_concat

/-- Calls that are no requests do not change which one was the last. -/
theorem Denied.log (h : Denied libc r size) (hcalls : requests calls = []) :
    Denied libc (r.log calls) size := by
  refine ⟨?_, h.refused⟩
  change (requests (r.calls ++ calls)).getLast? = _
  rw [requests_append, hcalls, List.append_nil]
  exact h.last

/-- Nothing is denied when `malloc` always succeeds. -/
theorem not_denied (h : ∀ k size, libc.granted k size = true) : ¬ Denied libc r size := by
  intro hdenied
  have hrefused := hdenied.refused
  rw [h] at hrefused
  cases hrefused

end Requests

section Attributes

variable {c c' hdr : Cursor} {n : ℕ}

/-- `rta_type`, as it is read inside of a message. -/
def attrType (c : Cursor) : ℕ := leNat ((c.bytes.drop 2).take 2)

/-- The payload of an attribute. -/
def attrData (c : Cursor) : List UInt8 := (rtaData c).take (rtaPayload c)

theorem rtaPayload_lt (c : Cursor) : rtaPayload c < 2 ^ 16 := by
  have hlt := leNat_lt (c.bytes.take 2)
  have hlen : (c.bytes.take 2).length ≤ 2 := by simp
  have hpow : 256 ^ (c.bytes.take 2).length ≤ 256 ^ 2 := Nat.pow_le_pow_right (by decide) hlen
  change leNat (c.bytes.take 2) - 4 < _
  omega

theorem rtaPayload_le (h : rta.Inside c c') : rtaPayload c' + 4 ≤ c'.left := by
  have hheader : 4 ≤ rta.length c' := h.headerLe
  have hlength := h.lengthLe
  unfold rtaPayload
  omega

theorem rtaPayload_le_data (h : rta.Inside c c') : rtaPayload c' ≤ (rtaData c').length := by
  have hpay := rtaPayload_le h
  have hleft := h.aligned.leftLe
  rw [rtaData, List.length_drop]
  omega

theorem rtaType_eq (h : rta.Inside c c') : rtaType c' = .ok (attrType c') := by
  have hpay := rtaPayload_le h
  have hleft := h.aligned.leftLe
  exact field_of_le (by omega)

theorem length_attrData (h : rta.Inside c c') : (attrData c').length = rtaPayload c' := by
  rw [attrData, List.length_take]
  exact Nat.min_eq_left (rtaPayload_le_data h)

theorem read_attrData (h : rta.Inside c c') :
    read (rtaData c') 0 (rtaPayload c') = .ok (attrData c') := by
  have hpay := rtaPayload_le_data h
  rw [read_of_le (by omega), List.drop_zero, attrData]

theorem strncpy_attrData (h : rta.Inside c c') :
    strncpy (rtaData c') (rtaPayload c') = .ok (cText (attrData c') ++
      List.replicate (rtaPayload c' - (cText (attrData c')).length) 0) :=
  strncpy_of_le (rtaPayload_le_data h)

theorem nlmsgAlign_eq (h : n < 2 ^ 32 - 3) : nlmsgAlign n = roundUp 4 n := by
  unfold nlmsgAlign roundUp
  omega

theorem le_nlmsgAlign (h : n < 2 ^ 32 - 3) : n ≤ nlmsgAlign n := by
  rw [nlmsgAlign_eq h]
  exact le_roundUp (by decide)

theorem nlmsgAlign_le (n : ℕ) : nlmsgAlign n ≤ n + 3 := by
  unfold nlmsgAlign
  omega

/-- `ifi_index` or `ifa_index`, in the data of a message. -/
def infoIndex (info : List UInt8) : ℕ := leNat ((info.drop 4).take 4)

/-- `ifi_type` -/
def infoType (info : List UInt8) : ℕ := leNat ((info.drop 2).take 2)

theorem leBytes_infoIndex {info : List UInt8} (h : 8 ≤ info.length) :
    leBytes 4 (infoIndex info) = (info.drop 4).take 4 := by
  have hlen : ((info.drop 4).take 4).length = 4 := by simp; omega
  have hbytes := leBytes_leNat ((info.drop 4).take 4)
  rwa [hlen] at hbytes

theorem leBytes_infoType {info : List UInt8} (h : 4 ≤ info.length) :
    leBytes 2 (infoType info) = (info.drop 2).take 2 := by
  have hlen : ((info.drop 2).take 2).length = 2 := by simp; omega
  have hbytes := leBytes_leNat ((info.drop 2).take 2)
  rwa [hlen] at hbytes

def indexOf (hdr : Cursor) : ℕ := infoIndex (nlmsgData hdr)

def hatypeOf (hdr : Cursor) : ℕ := infoType (nlmsgData hdr)

/-- A message with `n` bytes of its own data, whose attributes fill the rest of it. -/
structure Readable (hdr : Cursor) (n : ℕ) : Prop where
  room : n + 16 ≤ nlmsg.length hdr
  dvd : 4 ∣ nlmsg.length hdr
  lengthLe : nlmsg.length hdr ≤ hdr.bytes.length
  lengthLt : nlmsg.length hdr < 2 ^ 31

theorem Readable.length_nlmsgData (h : Readable hdr n) : n ≤ (nlmsgData hdr).length := by
  obtain ⟨hroom, -, hle, -⟩ := h
  rw [nlmsgData, List.length_drop]
  omega

theorem Readable.left (h : Readable hdr n) (hn : 4 ∣ n) :
    (attributes hdr n).left = nlmsg.length hdr - (n + 16) := by
  obtain ⟨hroom, -, -, hlt⟩ := h
  have halign : nlmsgAlign (n + 16) = n + 16 := by
    rw [nlmsgAlign_eq (by omega), roundUp_of_dvd (by decide) (by omega)]
  change nlmsgPayload _ n = _
  rw [nlmsgPayload, halign]
  omega

theorem Readable.aligned (h : Readable hdr n) (hn : 4 ∣ n) : rta.Aligned (attributes hdr n) := by
  have hleft := h.left hn
  obtain ⟨hroom, hdvd, hle, hlt⟩ := h
  have halign : nlmsgAlign n = n := by
    rw [nlmsgAlign_eq (by omega), roundUp_of_dvd (by decide) hn]
  refine ⟨?_, ?_, ?_⟩
  · rw [hleft]
    change 4 ∣ _
    omega
  · rw [hleft, attributes, nlmsgData, halign, List.length_drop, List.length_drop]
    omega
  · rw [hleft]
    change _ < 2 ^ 64
    omega

/-- Whatever room each attribute takes, all of them together do not take too much. -/
theorem sum_rooms_le (h : Readable hdr n) (hn : 4 ∣ n) (room : Cursor → ℕ)
    (hroom : ∀ c, rta.Inside (attributes hdr n) c → room c ≤ 2 ^ 32) :
    ((rta.walk (attributes hdr n)).1.map room).sum ≤ 2 ^ 61 := by
  have hlt := h.lengthLt
  have hleft := h.left hn
  have hcount : (rta.walk (attributes hdr n)).1.length * 4 ≤ (attributes hdr n).left :=
    Format.length_walk_le (h.aligned hn)
  have hinside := (Format.walk_inside (h.aligned hn)).2
  have hsum : ((rta.walk (attributes hdr n)).1.map room).sum ≤
      ((rta.walk (attributes hdr n)).1.map room).length • 2 ^ 32 := by
    refine List.sum_le_card_nsmul _ _ fun x hx => ?_
    obtain ⟨c, hc, rfl⟩ := List.mem_map.mp hx
    exact hroom c (hinside c hc)
  rw [List.length_map, smul_eq_mul] at hsum
  omega

end Attributes

section Sockaddrs

variable {b b' : Block} {off lo hi : ℕ} {family : UInt16} {data : List UInt8}

/-- The address fits in front of what follows it in its `sockaddr`. -/
def Fits (family : UInt16) (n : ℕ) : Prop :=
  (family = afInet → n ≤ 12) ∧ (family = afInet6 → 2 ≤ n ∧ n ≤ 16)

instance (family : UInt16) (n : ℕ) : Decidable (Fits family n) :=
  inferInstanceAs (Decidable (_ ∧ _))

/-- A `sockaddr` with an address. -/
structure SockaddrAt (b : Block) (off : ℕ) (family : UInt16) (data : List UInt8) : Prop where
  familyAt : HasAt b off (leBytes 2 family.toNat)
  addrAt : HasAt b (off + addrOffset family) data
  halenAt : family = afPacket → HasAt b (off + 11) [.ofNat data.length]

theorem fits_packet (n : ℕ) : Fits afPacket n :=
  ⟨fun h => absurd h (by decide), fun h => absurd h (by decide)⟩

theorem two_le_addrOffset (family : UInt16) : 2 ≤ addrOffset family := by
  unfold addrOffset
  split_ifs <;> decide

theorem addrOffset_add_le {n : ℕ} (h : Fits family n) :
    addrOffset family + n ≤ calcAddrLen family n := by
  obtain ⟨hinet, hinet6⟩ := h
  unfold addrOffset calcAddrLen maxSize
  split_ifs with h4 h6 hpacket
  · have := hinet h4
    omega
  · have := hinet6 h6
    omega
  all_goals omega

theorem addrOffset_packet : addrOffset afPacket = 12 := by decide

theorem SockaddrAt.changed (h : SockaddrAt b off family data) (hfits : Fits family data.length)
    (hch : ChangedIn b b' lo hi) (hapart : off + calcAddrLen family data.length ≤ lo ∨ hi ≤ off) :
    SockaddrAt b' off family data := by
  have htwo := two_le_addrOffset family
  have hlen := addrOffset_add_le hfits
  refine ⟨h.familyAt.changed hch (by rw [length_leBytes]; omega), h.addrAt.changed hch (by omega),
    fun hpacket => (h.halenAt hpacket).changed hch ?_⟩
  have hoff : addrOffset family = 12 := by rw [hpacket, addrOffset_packet]
  simp only [List.length_singleton]
  omega

/-- Between the family and the address only a link-layer address has something written. -/
theorem makeSockaddr_spec (hfits : Fits family data.length)
    (h : off + calcAddrLen family data.length ≤ b.length) :
    ∃ b', makeSockaddr family b off data = .ok b' ∧ SockaddrAt b' off family data ∧
      ChangedIn b b' off (off + addrOffset family + data.length) ∧
      (family ≠ afPacket → ∀ i, off + 2 ≤ i → i < off + addrOffset family → b'[i]? = b[i]?) := by
  have htwo := two_le_addrOffset family
  have hlen := addrOffset_add_le hfits
  obtain ⟨b₁, hput₁, hdata, hch₁⟩ := put_spec b (off + addrOffset family) data (by omega)
  have hlen₁ := hch₁.length
  obtain ⟨b₂, hput₂, hhalen, hch₂, hother⟩ : ∃ b₂, putHalen family b₁ off data.length = .ok b₂ ∧
      (family = afPacket → HasAt b₂ (off + 11) [.ofNat data.length]) ∧
      ChangedIn b₁ b₂ (off + 2) (off + addrOffset family) ∧ (family ≠ afPacket → b₂ = b₁) := by
    by_cases hpacket : family = afPacket
    · have hoff : addrOffset family = 12 := by rw [hpacket, addrOffset_packet]
      obtain ⟨b₂, hput, hat, hch⟩ := put_spec b₁ (off + 11) [.ofNat data.length] (by
        simp only [List.length_singleton]
        omega)
      refine ⟨b₂, by rw [putHalen, if_pos hpacket, hput], fun _ => hat, hch.mono (by omega) ?_,
        fun h => absurd hpacket h⟩
      simp only [List.length_singleton]
      omega
    · exact ⟨b₁, if_neg hpacket, fun h => absurd h hpacket, .refl _ _ _, fun _ => rfl⟩
  have hlen₂ := hch₂.length
  obtain ⟨b₃, hput₃, hfamily, hch₃⟩ := put_spec b₂ off (leBytes 2 family.toNat) (by
    rw [length_leBytes]
    omega)
  rw [length_leBytes] at hch₃
  refine ⟨b₃, ?_, ⟨hfamily, ?_, fun hpacket => (hhalen hpacket).changed hch₃ (by omega)⟩, ?_,
    fun hne i hi hi' => ?_⟩
  · rw [makeSockaddr, hput₁, ok_bind, hput₂, ok_bind, hput₃]
  · exact (hdata.changed hch₂ (by omega)).changed hch₃ (by omega)
  · exact ((hch₁.mono (by omega) (by omega)).trans (hch₂.mono (by omega) (by omega))).trans
      (hch₃.mono (by omega) (by omega))
  · rw [hch₃.outside i (by omega), hother hne, hch₁.outside i (by omega)]

end Sockaddrs

section Pointers

variable {b b' : Block} {lo hi block name room : ℕ} {other ptr : NamePtr}
  {given : Option (List UInt8)}

theorem rel_mono {α β : Type*} {r r' : α → β → Prop} (h : ∀ a b, r a b → r' a b) {x : Option α}
    {y : Option β} (hrel : Option.Rel r x y) : Option.Rel r' x y := by
  cases hrel with
  | some hab => exact .some (h _ _ hab)
  | none => exact .none

theorem rel_isSome {α β : Type*} {r : α → β → Prop} {x : Option α} {y : Option β}
    (h : Option.Rel r x y) : x.isSome = y.isSome := by
  cases h <;> rfl

theorem rel_or {α β : Type*} {r : α → β → Prop} {x x' : Option α} {y y' : Option β}
    (h : Option.Rel r x y) (h' : Option.Rel r x' y') : Option.Rel r (x.or x') (y.or y') := by
  cases h with
  | some hab => exact .some hab
  | none => exact h'

theorem rel_map {α β γ : Type*} {r : α → β → Prop} {f : γ → β} {x : Option α} {y : Option γ}
    (h : Option.Rel (fun a c => r a (f c)) x y) : Option.Rel r x (y.map f) := by
  cases h with
  | some hab => exact .some hab
  | none => exact .none

/-- A name at an offset of its own block, where an attribute gave it, else another one. -/
inductive NameOf (other : NamePtr) (block name : ℕ) (b : Block) :
    NamePtr → Option (List UInt8) → Prop
  | other : NameOf other block name b other none
  | own {data : List UInt8} (hat : HasAt b name (cText data ++ [0])) :
      NameOf other block name b (.at block name) (some data)

theorem NameOf.changed (h : NameOf other block name b ptr given)
    (hroom : ∀ data ∈ given, data.length + 1 ≤ room) (hch : ChangedIn b b' lo hi)
    (hapart : name + room ≤ lo) : NameOf other block name b' ptr given := by
  cases h with
  | other => exact .other
  | @own data hat =>
    have hlen := length_cText_le data
    have hle := hroom data rfl
    refine .own (hat.changed hch (.inl ?_))
    rw [List.length_append, List.length_singleton]
    omega

end Pointers

section Attrs

variable {κ : Type*} [DecidableEq κ]

/-- The payload of the last attribute of a kind. -/
def lastOf (k : κ) (attrs : List (κ × List UInt8)) : Option (List UInt8) :=
  ((attrs.filter (·.1 = k)).getLast?).map Prod.snd

theorem lastOf_snoc (k : κ) (attrs : List (κ × List UInt8)) (a : κ × List UInt8) :
    lastOf k (attrs ++ [a]) = if a.1 = k then some a.2 else lastOf k attrs := by
  by_cases h : a.1 = k <;> simp [lastOf, h]

end Attrs

section Texts

variable {c c' : Cursor} {b : Block}

theorem putName_spec (h : rta.Inside c c') (name : ℕ)
    (hroom : name + rtaPayload c' + 1 ≤ b.length) :
    ∃ b', putName b name c' = .ok b' ∧ HasAt b' name (cText (attrData c') ++ [0]) ∧
      ChangedIn b b' name (name + rtaPayload c' + 1) := by
  have hlen := length_cText_le (attrData c')
  rw [length_attrData h] at hlen
  have hcopy := strncpy_attrData h
  generalize hn : rtaPayload c' - (cText (attrData c')).length = n at hcopy
  obtain ⟨b₁, hput₁, htext, hch₁⟩ := put_spec b name (cText (attrData c') ++ List.replicate n 0) (by
    simp only [List.length_append, List.length_replicate]
    omega)
  have hend : name + (cText (attrData c') ++ List.replicate n (0 : UInt8)).length =
      name + rtaPayload c' := by
    simp only [List.length_append, List.length_replicate]
    omega
  rw [hend] at hch₁
  obtain ⟨b₂, hput₂, hzero, hch₂⟩ := put_spec b₁ (name + rtaPayload c') [0] (by
    have hlen₁ := hch₁.length
    simp only [List.length_singleton]
    omega)
  refine ⟨b₂, ?_, hasAt_append.mpr ⟨?_, ?_⟩, (hch₁.mono (by omega) (by omega)).trans
    (hch₂.mono (by omega) (by simp))⟩
  · rw [putName, hcopy, ok_bind, hput₁, ok_bind, hput₂]
  · exact (hasAt_append.mp htext).1.changed hch₂ (by omega)
  · -- the terminator is a byte of the padding, or the one written behind it
    have hpad := (hasAt_append.mp htext).2
    by_cases hfull : n = 0
    · have hoff : name + (cText (attrData c')).length = name + rtaPayload c' := by omega
      rwa [hoff]
    · obtain ⟨k, rfl⟩ := Nat.exists_eq_succ_of_ne_zero hfull
      have hfirst : HasAt b₁ _ ([0] ++ List.replicate k 0) := hpad
      exact (hasAt_append.mp hfirst).1.changed hch₂ (by simp only [List.length_singleton]; omega)

end Texts

section Purpose

variable {list list' : List Ifaddrs} {e : Ifaddrs}

/-- An address; a link-layer one has the index and the type of its link, and a link-local IPv6 one
the index. -/
structure Address where
  family : UInt16
  bytes : List UInt8
  sllIfindex : Option ℕ
  sllHatype : Option ℕ
  sin6ScopeId : Option ℕ
  deriving DecidableEq

/-- What an entry is for: what it says of an interface. -/
structure Interface where
  name : List UInt8
  flags : ℕ
  addr : Option Address
  netmask : Option Address
  dstaddr : Option Address
  data : Option (List UInt8)
  deriving DecidableEq

/-- A `sockaddr` with all that is said of an address. -/
structure AddressAt (b : Block) (off : ℕ) (a : Address) : Prop where
  sockaddrAt : SockaddrAt b off a.family a.bytes
  ifindexAt : ∀ n ∈ a.sllIfindex, HasAt b (off + 4) (leBytes 4 n)
  hatypeAt : ∀ n ∈ a.sllHatype, HasAt b (off + 8) (leBytes 2 n)
  scopeAt : ∀ n ∈ a.sin6ScopeId, HasAt b (off + 24) (leBytes 4 n)

/-- An address with nothing said beside its bytes. -/
theorem SockaddrAt.addressAt {b : Block} {off : ℕ} {family : UInt16} {data : List UInt8}
    (h : SockaddrAt b off family data) : AddressAt b off ⟨family, data, none, none, none⟩ where
  sockaddrAt := h
  ifindexAt _ hn := by cases hn
  hatypeAt _ hn := by cases hn
  scopeAt _ hn := by cases hn

/-- The pointer leads to this C string, in the block of an entry of the list. -/
def NameIn (list : List Ifaddrs) : NamePtr → List UInt8 → Prop
  | .empty, name => name = []
  | .at block off, name =>
    (0 : UInt8) ∉ name ∧ ∃ e ∈ list, e.block = block ∧ HasAt e.tail off (name ++ [0])

/-- What the pointers of an entry lead to is what the entry is to say. -/
structure Represents (list : List Ifaddrs) (e : Ifaddrs) (i : Interface) : Prop where
  name : NameIn list e.ifaName i.name
  flags : e.ifaFlags = i.flags
  addr : Option.Rel (AddressAt e.tail) e.ifaAddr i.addr
  netmask : Option.Rel (AddressAt e.tail) e.ifaNetmask i.netmask
  dstaddr : Option.Rel (AddressAt e.tail) e.ifaDstaddr i.dstaddr
  data : Option.Rel (HasAt e.tail) e.ifaData i.data

theorem NameIn.mono {ptr : NamePtr} {name : List UInt8} (h : NameIn list ptr name)
    (hsub : list ⊆ list') : NameIn list' ptr name := by
  cases ptr with
  | empty => exact h
  | «at» block off =>
    obtain ⟨hzero, e, he, hat⟩ := h
    exact ⟨hzero, e, hsub he, hat⟩

theorem Represents.mono {i : Interface} (h : Represents list e i) (hsub : list ⊆ list') :
    Represents list' e i :=
  ⟨h.name.mono hsub, h.flags, h.addr, h.netmask, h.dstaddr, h.data⟩

/-- The text of a name, if there is one. -/
def textOf (given : Option (List UInt8)) : List UInt8 := given.elim [] cText

theorem zero_notMem_cText (data : List UInt8) : (0 : UInt8) ∉ cText data := by
  intro h
  simpa using List.mem_takeWhile_imp h

/-- What a message does to a list: it asks for a block of a size, and adds an entry at the end if
this is granted, and fails if it is not. -/
inductive Adds (libc : Libc) (list : List Ifaddrs) (r : Run) (size : ℕ) (P : Ifaddrs → Prop) :
    Except Halt Interpreted → Prop
  | failed {r' : Run} (refused : libc.granted r.mallocs size = false)
      (hmalloc : malloc libc size r = (none, r')) : Adds libc list r size P (.ok (-1, list, r'))
  | added {r' : Run} {e : Ifaddrs} (granted : libc.granted r.mallocs size = true)
      (hmalloc : malloc libc size r = (some e.block, r')) (he : P e) :
      Adds libc list r size P (.ok (0, list ++ [e], r'))

variable {libc : Libc} {r : Run} {size : ℕ} {P Q : Ifaddrs → Prop}
  {result : Except Halt Interpreted}

theorem Adds.mono (h : Adds libc list r size P result) (hPQ : ∀ e, P e → Q e) :
    Adds libc list r size Q result := by
  cases h with
  | failed refused hmalloc => exact .failed refused hmalloc
  | added granted hmalloc he => exact .added granted hmalloc (hPQ _ he)

theorem Adds.of_granted (h : Adds libc list r size P result)
    (hgranted : libc.granted r.mallocs size = true) :
    ∃ e r', result = .ok (0, list ++ [e], r') ∧ P e := by
  cases h with
  | failed refused hmalloc =>
    rw [hgranted] at refused
    cases refused
  | added _ hmalloc he => exact ⟨_, _, rfl, he⟩

theorem addToEnd_eq (list : List Ifaddrs) (e : Ifaddrs) : addToEnd list e = list ++ [e] := by
  induction list with
  | nil => rfl
  | cons cur rest ih => rw [addToEnd, ih, List.cons_append]

end Purpose

end AutoTest.Netlink
