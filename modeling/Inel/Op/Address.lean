import Inel.Reactor.Result

/-!
# Socket addresses

The kernel writes an address to memory; its family says how the bytes are read.
The order of the host's bytes is a parameter.

An address that goes to the kernel and comes back is the same address. What the
kernel reads in between is fixed byte by byte: ports and addresses are stored with
the most significant byte first on every host.
-/

namespace Inel.Reactor

inductive ByteOrder
  | little
  | big
deriving DecidableEq, Repr

namespace ByteOrder

/-- Two bytes of memory read as one number. -/
def u16 (order : ByteOrder) (first second : UInt8) : UInt16 :=
  match order with
  | .little => second.toUInt16 <<< 8 ||| first.toUInt16
  | .big => first.toUInt16 <<< 8 ||| second.toUInt16

def u32 (order : ByteOrder) (bytes : Vector UInt8 4) : UInt32 :=
  match order with
  | .little => bytes[3].toUInt32 <<< 24 ||| bytes[2].toUInt32 <<< 16 |||
      bytes[1].toUInt32 <<< 8 ||| bytes[0].toUInt32
  | .big => bytes[0].toUInt32 <<< 24 ||| bytes[1].toUInt32 <<< 16 |||
      bytes[2].toUInt32 <<< 8 ||| bytes[3].toUInt32

def toNeBytes (order : ByteOrder) (value : UInt32) : Vector UInt8 4 :=
  match order with
  | .little => #v[value.toUInt8, (value >>> 8).toUInt8, (value >>> 16).toUInt8,
      (value >>> 24).toUInt8]
  | .big => #v[(value >>> 24).toUInt8, (value >>> 16).toUInt8, (value >>> 8).toUInt8,
      value.toUInt8]

def u16ToNeBytes (order : ByteOrder) (value : UInt16) : Vector UInt8 2 :=
  match order with
  | .little => #v[value.toUInt8, (value >>> 8).toUInt8]
  | .big => #v[(value >>> 8).toUInt8, value.toUInt8]

def fromBe (order : ByteOrder) (value : UInt16) : UInt16 :=
  match order with
  | .little => value <<< 8 ||| value >>> 8
  | .big => value

def toBe (order : ByteOrder) (value : UInt16) : UInt16 := order.fromBe value

end ByteOrder

inductive SocketAddr
  | v4 (ip : Vector UInt8 4) (port : UInt16)
  | v6 (ip : Vector UInt8 16) (port : UInt16) (flowinfo scopeId : UInt32)
deriving DecidableEq

def afInet : UInt16 := 2

def afInet6 : UInt16 := 10

def sizeOfSockaddrIn : UInt32 := 16

def sizeOfSockaddrIn6 : UInt32 := 28

/-- The union of the address structures, as the bytes of the largest. -/
structure SocketAddrCRepr where
  bytes : Vector UInt8 28
deriving DecidableEq

namespace SocketAddrCRepr

def word (addr : SocketAddrCRepr) (i : Nat) (h : i + 4 ≤ 28 := by omega) : Vector UInt8 4 :=
  #v[addr.bytes[i], addr.bytes[i + 1], addr.bytes[i + 2], addr.bytes[i + 3]]

def family (order : ByteOrder) (addr : SocketAddrCRepr) : UInt16 :=
  order.u16 addr.bytes[0] addr.bytes[1]

def port (order : ByteOrder) (addr : SocketAddrCRepr) : UInt16 :=
  order.u16 addr.bytes[2] addr.bytes[3]

/-- An address the kernel reports for an IP socket, with its length. -/
def isInet (order : ByteOrder) (addr : SocketAddrCRepr) (len : UInt32) : Bool :=
  addr.family order == afInet && len == sizeOfSockaddrIn ||
    addr.family order == afInet6 && len == sizeOfSockaddrIn6

end SocketAddrCRepr

/-- The bytes of the union that no field of an IPv4 address covers are zero here. -/
def intoRawAddr (order : ByteOrder) : SocketAddr → SocketAddrCRepr × UInt32
  | .v4 ip port =>
      (⟨order.u16ToNeBytes afInet ++ order.u16ToNeBytes (order.toBe port) ++ ip ++
        (Vector.replicate 20 0 : Vector UInt8 20)⟩, sizeOfSockaddrIn)
  | .v6 ip port flowinfo scopeId =>
      (⟨order.u16ToNeBytes afInet6 ++ order.u16ToNeBytes (order.toBe port) ++
        order.toNeBytes flowinfo ++ ip ++ order.toNeBytes scopeId⟩, sizeOfSockaddrIn6)

def fromRawAddr (order : ByteOrder) (addr : SocketAddrCRepr) (len : UInt32) :
    Except Panic SocketAddr :=
  if addr.family order = afInet then
    if len = sizeOfSockaddrIn then
      .ok (.v4 (order.toNeBytes (order.u32 (addr.word 4))) (order.fromBe (addr.port order)))
    else
      .error (.panicked "assertion failed: len as usize == mem::size_of::<libc::sockaddr_in>()")
  else if addr.family order = afInet6 then
    if len = sizeOfSockaddrIn6 then
      .ok (.v6 (Vector.ofFn fun i => addr.bytes[8 + i.val]) (order.fromBe (addr.port order))
        (order.u32 (addr.word 4)) (order.u32 (addr.word 24)))
    else
      .error (.panicked "assertion failed: len as usize == mem::size_of::<libc::sockaddr_in6>()")
  else .error (.unreachable "")

theorem isOk_fromRawAddr (order : ByteOrder) (addr : SocketAddrCRepr) (len : UInt32) :
    (fromRawAddr order addr len).isOk = addr.isInet order len := by
  unfold fromRawAddr SocketAddrCRepr.isInet
  by_cases h4 : addr.family order = afInet
  · by_cases hlen : len = sizeOfSockaddrIn
    · simp [h4, hlen, Except.isOk, Except.toBool]
    · simp [h4, hlen, Except.isOk, Except.toBool, afInet, afInet6]
  · by_cases h6 : addr.family order = afInet6
    · by_cases hlen : len = sizeOfSockaddrIn6 <;>
        simp [h6, hlen, Except.isOk, Except.toBool, afInet, afInet6]
    · simp [h4, h6, Except.isOk, Except.toBool]

/-! ## Numbers in bytes -/

namespace ByteOrder

theorem join_byte (upper : Nat) (byte : UInt8) :
    upper <<< 8 ||| byte.toNat = upper * 256 + byte.toNat := by
  rw [← Nat.shiftLeft_add_eq_or_of_lt byte.toNat_lt, Nat.shiftLeft_eq]

theorem shifted_byte (byte : UInt8) {shift width : Nat} (h : 8 + shift ≤ width) :
    byte.toNat <<< shift % 2 ^ width = byte.toNat <<< shift := by
  have hshift : byte.toNat * 2 ^ shift < 2 ^ 8 * 2 ^ shift :=
    Nat.mul_lt_mul_of_pos_right byte.toNat_lt (Nat.two_pow_pos shift)
  have hwidth : 2 ^ (8 + shift) ≤ 2 ^ width := Nat.pow_le_pow_right Nat.two_pos h
  rw [Nat.pow_add] at hwidth
  rw [Nat.shiftLeft_eq]
  exact Nat.mod_eq_of_lt (Nat.lt_of_lt_of_le hshift hwidth)

theorem toNat_u16_big (high low : UInt8) :
    (big.u16 high low).toNat = high.toNat * 256 + low.toNat := by
  simp only [u16, UInt16.toNat_or, UInt16.toNat_shiftLeft, UInt8.toNat_toUInt16]
  change high.toNat <<< 8 % 2 ^ 16 ||| low.toNat = _
  rw [shifted_byte high (by decide), join_byte]

theorem u16_little (first second : UInt8) : little.u16 first second = big.u16 second first := rfl

theorem toNat_low (value : UInt16) : value.toUInt8.toNat = value.toNat % 256 := rfl

theorem toNat_high (value : UInt16) : (value >>> 8).toUInt8.toNat = value.toNat / 256 := by
  have hlt := value.toNat_lt
  rw [UInt16.toNat_toUInt8, UInt16.toNat_shiftRight]
  change value.toNat >>> 8 % 2 ^ 8 = _
  rw [Nat.shiftRight_eq_div_pow]
  omega

theorem u16_big_bytes (value : UInt16) : big.u16 (value >>> 8).toUInt8 value.toUInt8 = value := by
  apply UInt16.toNat_inj.mp
  rw [toNat_u16_big, toNat_high, toNat_low]
  omega

theorem toNat_swapped (value : UInt16) :
    (little.fromBe value).toNat = value.toNat % 256 * 256 + value.toNat / 256 := by
  have hlt := value.toNat_lt
  have hhigh : value.toNat / 256 < 2 ^ 8 := by omega
  have hor := Nat.shiftLeft_add_eq_or_of_lt hhigh (value.toNat % 256)
  simp only [fromBe, UInt16.toNat_or, UInt16.toNat_shiftLeft, UInt16.toNat_shiftRight]
  change value.toNat <<< 8 % 2 ^ 16 ||| value.toNat >>> 8 = _
  have hleft : value.toNat <<< 8 % 2 ^ 16 = (value.toNat % 256) <<< 8 := by
    rw [Nat.shiftLeft_eq, Nat.shiftLeft_eq]
    omega
  rw [hleft, Nat.shiftRight_eq_div_pow, ← hor, Nat.shiftLeft_eq]

/-- A number that is read natively and converted is read in network order. -/
theorem fromBe_u16 (order : ByteOrder) (first second : UInt8) :
    order.fromBe (order.u16 first second) = big.u16 first second := by
  cases order with
  | big => rfl
  | little =>
      have hfirst := first.toNat_lt
      have hsecond := second.toNat_lt
      apply UInt16.toNat_inj.mp
      rw [toNat_swapped, u16_little, toNat_u16_big, toNat_u16_big]
      omega

/-- A number that is converted and stored natively is stored in network order. -/
theorem bytes_toBe (order : ByteOrder) (value : UInt16) :
    order.u16ToNeBytes (order.toBe value) = big.u16ToNeBytes value := by
  cases order with
  | big => rfl
  | little =>
      have hlt := value.toNat_lt
      have hlow : (little.toBe value).toUInt8 = (value >>> 8).toUInt8 := by
        apply UInt8.toNat_inj.mp
        rw [toNat_low, toNat_high, toBe, toNat_swapped]
        omega
      have hhigh : (little.toBe value >>> 8).toUInt8 = value.toUInt8 := by
        apply UInt8.toNat_inj.mp
        rw [toNat_high, toNat_low, toBe, toNat_swapped]
        omega
      simp only [u16ToNeBytes, hlow, hhigh]

theorem u16_bytes (order : ByteOrder) (value : UInt16) :
    order.u16 (order.u16ToNeBytes value)[0] (order.u16ToNeBytes value)[1] = value := by
  cases order with
  | big => exact u16_big_bytes value
  | little => exact u16_big_bytes value

theorem toNat_u32_big (bytes : Vector UInt8 4) :
    (big.u32 bytes).toNat = ((bytes[0].toNat * 256 + bytes[1].toNat) * 256 +
      bytes[2].toNat) * 256 + bytes[3].toNat := by
  simp only [u32, UInt32.toNat_or, UInt32.toNat_shiftLeft, UInt8.toNat_toUInt32]
  change bytes[0].toNat <<< 24 % 2 ^ 32 ||| bytes[1].toNat <<< 16 % 2 ^ 32 |||
    bytes[2].toNat <<< 8 % 2 ^ 32 ||| bytes[3].toNat = _
  rw [shifted_byte _ (by decide), shifted_byte _ (by decide), shifted_byte _ (by decide)]
  rw [← join_byte, ← join_byte, ← join_byte]
  simp only [Nat.shiftLeft_or_distrib, ← Nat.shiftLeft_add]

def swapped (bytes : Vector UInt8 4) : Vector UInt8 4 :=
  #v[bytes[3], bytes[2], bytes[1], bytes[0]]

theorem swapped_swapped (bytes : Vector UInt8 4) : swapped (swapped bytes) = bytes := by
  apply Vector.ext
  intro i hi
  match i with
  | 0 => rfl
  | 1 => rfl
  | 2 => rfl
  | 3 => rfl

theorem u32_little (bytes : Vector UInt8 4) : little.u32 bytes = big.u32 (swapped bytes) := rfl

theorem toNeBytes_little (value : UInt32) :
    little.toNeBytes value = swapped (big.toNeBytes value) := rfl

theorem toNat_toNeBytes_big (value : UInt32) :
    (big.toNeBytes value)[0].toNat = value.toNat / 2 ^ 24 ∧
      (big.toNeBytes value)[1].toNat = value.toNat / 2 ^ 16 % 256 ∧
      (big.toNeBytes value)[2].toNat = value.toNat / 2 ^ 8 % 256 ∧
      (big.toNeBytes value)[3].toNat = value.toNat % 256 := by
  have hlt := value.toNat_lt
  refine ⟨?_, ?_, ?_, rfl⟩
  · change (value.toNat >>> 24) % 2 ^ 8 = _
    rw [Nat.shiftRight_eq_div_pow]
    omega
  · change (value.toNat >>> 16) % 2 ^ 8 = _
    rw [Nat.shiftRight_eq_div_pow]
  · change (value.toNat >>> 8) % 2 ^ 8 = _
    rw [Nat.shiftRight_eq_div_pow]

theorem u32_big_toNeBytes (value : UInt32) : big.u32 (big.toNeBytes value) = value := by
  obtain ⟨h0, h1, h2, h3⟩ := toNat_toNeBytes_big value
  apply UInt32.toNat_inj.mp
  rw [toNat_u32_big, h0, h1, h2, h3]
  omega

theorem toNeBytes_big_u32 (bytes : Vector UInt8 4) : big.toNeBytes (big.u32 bytes) = bytes := by
  obtain ⟨h0, h1, h2, h3⟩ := toNat_toNeBytes_big (big.u32 bytes)
  have hvalue := toNat_u32_big bytes
  have hb0 := bytes[0].toNat_lt
  have hb1 := bytes[1].toNat_lt
  have hb2 := bytes[2].toNat_lt
  have hb3 := bytes[3].toNat_lt
  apply Vector.ext
  intro i hi
  apply UInt8.toNat_inj.mp
  match i with
  | 0 => omega
  | 1 => omega
  | 2 => omega
  | 3 => omega

theorem u32_toNeBytes (order : ByteOrder) (value : UInt32) :
    order.u32 (order.toNeBytes value) = value := by
  cases order with
  | big => exact u32_big_toNeBytes value
  | little => rw [u32_little, toNeBytes_little, swapped_swapped, u32_big_toNeBytes]

theorem toNeBytes_u32 (order : ByteOrder) (bytes : Vector UInt8 4) :
    order.toNeBytes (order.u32 bytes) = bytes := by
  cases order with
  | big => exact toNeBytes_big_u32 bytes
  | little => rw [u32_little, toNeBytes_little, toNeBytes_big_u32, swapped_swapped]

end ByteOrder

/-! ## Addresses -/

namespace SocketAddr

def family : SocketAddr → UInt16
  | .v4 .. => afInet
  | .v6 .. => afInet6

def port : SocketAddr → UInt16
  | .v4 _ port => port
  | .v6 _ port _ _ => port

def octets : SocketAddr → List UInt8
  | .v4 ip _ => ip.toList
  | .v6 ip _ _ _ => ip.toList

/-- Where `sin_addr` and `sin6_addr` are. -/
def octetsAt : SocketAddr → Nat
  | .v4 .. => 4
  | .v6 .. => 8

end SocketAddr

namespace SocketAddrCRepr

/-- The address that the kernel takes the bytes for. -/
def endpoint (order : ByteOrder) (raw : SocketAddrCRepr) : Option SocketAddr :=
  let port := ByteOrder.big.u16 raw.bytes[2] raw.bytes[3]
  if raw.family order = afInet then some (.v4 (raw.word 4) port)
  else if raw.family order = afInet6 then
    some (.v6 (Vector.ofFn fun i => raw.bytes[8 + i.val]) port (order.u32 (raw.word 4))
      (order.u32 (raw.word 24)))
  else none

end SocketAddrCRepr

/-- The bytes stand for the address, here and in the kernel. -/
structure Encodes (order : ByteOrder) (addr : SocketAddr) (raw : SocketAddrCRepr)
    (len : UInt32) : Prop where
  decoded : fromRawAddr order raw len = .ok addr
  seen : raw.endpoint order = some addr
  portHigh : raw.bytes[2] = (addr.port >>> 8).toUInt8
  portLow : raw.bytes[3] = addr.port.toUInt8
  octets : ∀ i < addr.octets.length, raw.bytes[addr.octetsAt + i]? = addr.octets[i]?

section Encoding

variable {order : ByteOrder} {addr : SocketAddr} {raw : SocketAddrCRepr}

theorem len_v4 (ip : Vector UInt8 4) (port : UInt16) :
    (intoRawAddr order (.v4 ip port)).2 = sizeOfSockaddrIn := rfl

theorem len_v6 (ip : Vector UInt8 16) (port : UInt16) (flowinfo scopeId : UInt32) :
    (intoRawAddr order (.v6 ip port flowinfo scopeId)).2 = sizeOfSockaddrIn6 := rfl

/-- What the kernel takes the bytes for is what is decoded, if the length is right. -/
theorem fromRawAddr_of_endpoint (h : raw.endpoint order = some addr) :
    fromRawAddr order raw (intoRawAddr order addr).2 = .ok addr := by
  unfold SocketAddrCRepr.endpoint at h
  by_cases h4 : raw.family order = afInet
  · rw [if_pos h4] at h
    obtain rfl := Option.some.inj h
    unfold fromRawAddr SocketAddrCRepr.port
    rw [if_pos h4, if_pos (len_v4 _ _), ByteOrder.toNeBytes_u32, ByteOrder.fromBe_u16]
  · rw [if_neg h4] at h
    by_cases h6 : raw.family order = afInet6
    · rw [if_pos h6] at h
      obtain rfl := Option.some.inj h
      unfold fromRawAddr SocketAddrCRepr.port
      rw [if_neg h4, if_pos h6, if_pos (len_v6 _ _ _ _), ByteOrder.fromBe_u16]
    · rw [if_neg h6] at h
      exact nomatch h

/-- The bytes up to the length are those of the address. -/
def AgreesWith (order : ByteOrder) (addr : SocketAddr) (raw : SocketAddrCRepr) : Prop :=
  ∀ i (hi : i < 28), i < (intoRawAddr order addr).2.toNat →
    raw.bytes[i] = (intoRawAddr order addr).1.bytes[i]

theorem le_len (order : ByteOrder) (addr : SocketAddr) : 16 ≤ (intoRawAddr order addr).2.toNat := by
  cases addr with
  | v4 ip port => exact (by decide : 16 ≤ sizeOfSockaddrIn.toNat)
  | v6 ip port flowinfo scopeId => exact (by decide : 16 ≤ sizeOfSockaddrIn6.toNat)

theorem family_byte (h : AgreesWith order addr raw) {i : Nat} (hi : i < 2) :
    raw.bytes[i] = (order.u16ToNeBytes addr.family)[i] := by
  rw [h i (by omega) (Nat.lt_of_lt_of_le (by omega) (le_len order addr))]
  cases addr with
  | v4 ip port =>
      simp only [intoRawAddr]
      rw [Vector.getElem_append_left (by omega), Vector.getElem_append_left (by omega),
        Vector.getElem_append_left (by omega)]
      rfl
  | v6 ip port flowinfo scopeId =>
      simp only [intoRawAddr]
      rw [Vector.getElem_append_left (by omega), Vector.getElem_append_left (by omega),
        Vector.getElem_append_left (by omega), Vector.getElem_append_left (by omega)]
      rfl

theorem port_byte (h : AgreesWith order addr raw) {i : Nat} (hi : i < 2) :
    raw.bytes[2 + i] = (ByteOrder.big.u16ToNeBytes addr.port)[i] := by
  rw [h (2 + i) (by omega) (Nat.lt_of_lt_of_le (by omega) (le_len order addr)), ← order.bytes_toBe]
  cases addr with
  | v4 ip port =>
      simp only [intoRawAddr]
      rw [Vector.getElem_append_left (by omega), Vector.getElem_append_left (by omega),
        Vector.getElem_append_right (by omega) (by omega)]
      simp [SocketAddr.port]
  | v6 ip port flowinfo scopeId =>
      simp only [intoRawAddr]
      rw [Vector.getElem_append_left (by omega), Vector.getElem_append_left (by omega),
        Vector.getElem_append_left (by omega), Vector.getElem_append_right (by omega) (by omega)]
      simp [SocketAddr.port]

theorem v4_octet {ip : Vector UInt8 4} {port : UInt16} (h : AgreesWith order (.v4 ip port) raw)
    {i : Nat} (hi : i < 4) : raw.bytes[4 + i] = ip[i] := by
  rw [h (4 + i) (by omega) (by rw [len_v4]; change _ < 16; omega)]
  simp only [intoRawAddr]
  rw [Vector.getElem_append_left (by omega), Vector.getElem_append_right (by omega) (by omega)]
  simp

section V6

variable {ip : Vector UInt8 16} {port : UInt16} {flowinfo scopeId : UInt32}

theorem v6_byte (h : AgreesWith order (.v6 ip port flowinfo scopeId) raw) {i : Nat} (hi : i < 28) :
    raw.bytes[i] = (intoRawAddr order (.v6 ip port flowinfo scopeId)).1.bytes[i] :=
  h i hi hi

theorem v6_octet (h : AgreesWith order (.v6 ip port flowinfo scopeId) raw) {i : Nat}
    (hi : i < 16) : raw.bytes[8 + i] = ip[i] := by
  rw [v6_byte h (by omega)]
  simp only [intoRawAddr]
  rw [Vector.getElem_append_left (by omega), Vector.getElem_append_right (by omega) (by omega)]
  simp

theorem flowinfo_byte (h : AgreesWith order (.v6 ip port flowinfo scopeId) raw) {i : Nat}
    (hi : i < 4) : raw.bytes[4 + i] = (order.toNeBytes flowinfo)[i] := by
  rw [v6_byte h (by omega)]
  simp only [intoRawAddr]
  rw [Vector.getElem_append_left (by omega), Vector.getElem_append_left (by omega),
    Vector.getElem_append_right (by omega) (by omega)]
  simp

theorem scopeId_byte (h : AgreesWith order (.v6 ip port flowinfo scopeId) raw) {i : Nat}
    (hi : i < 4) : raw.bytes[24 + i] = (order.toNeBytes scopeId)[i] := by
  rw [v6_byte h (by omega)]
  simp only [intoRawAddr]
  rw [Vector.getElem_append_right (by omega) (by omega)]
  simp

end V6

theorem word_eq {i : Nat} (hle : i + 4 ≤ 28) {bytes : Vector UInt8 4}
    (h : ∀ j (hj : j < 4), raw.bytes[i + j] = bytes[j]) : raw.word i hle = bytes := by
  apply Vector.ext
  intro j hj
  match j with
  | 0 => exact h 0 hj
  | 1 => exact h 1 hj
  | 2 => exact h 2 hj
  | 3 => exact h 3 hj

theorem family_eq (h : AgreesWith order addr raw) : raw.family order = addr.family := by
  unfold SocketAddrCRepr.family
  rw [family_byte h (by decide), family_byte h (by decide), order.u16_bytes]

theorem port_eq (h : AgreesWith order addr raw) :
    ByteOrder.big.u16 raw.bytes[2] raw.bytes[3] = addr.port := by
  rw [port_byte h (Nat.zero_lt_two), port_byte h (Nat.one_lt_two), ByteOrder.u16_bytes]

theorem endpoint_eq (h : AgreesWith order addr raw) : raw.endpoint order = some addr := by
  have hfamily := family_eq h
  have hport := port_eq h
  unfold SocketAddrCRepr.endpoint
  rw [hfamily, hport]
  cases addr with
  | v4 ip port =>
      have hip : raw.word 4 = ip := word_eq _ fun j hj => v4_octet h hj
      rw [hip]
      rfl
  | v6 ip port flowinfo scopeId =>
      have hip : (Vector.ofFn fun i : Fin 16 => raw.bytes[8 + i.val]) = ip := by
        apply Vector.ext
        intro i hi
        rw [Vector.getElem_ofFn]
        exact v6_octet h hi
      have hflowinfo : raw.word 4 = order.toNeBytes flowinfo :=
        word_eq _ fun j hj => flowinfo_byte h hj
      have hscopeId : raw.word 24 = order.toNeBytes scopeId :=
        word_eq _ fun j hj => scopeId_byte h hj
      rw [hip, hflowinfo, hscopeId, order.u32_toNeBytes, order.u32_toNeBytes]
      rfl

theorem octets_eq (h : AgreesWith order addr raw) {i : Nat} (hi : i < addr.octets.length) :
    raw.bytes[addr.octetsAt + i]? = addr.octets[i]? := by
  cases addr with
  | v4 ip port =>
      have hlt : i < 4 := by simpa [SocketAddr.octets] using hi
      simp [SocketAddr.octets, SocketAddr.octetsAt, hlt, ← v4_octet h hlt]
  | v6 ip port flowinfo scopeId =>
      have hlt : i < 16 := by simpa [SocketAddr.octets] using hi
      simp [SocketAddr.octets, SocketAddr.octetsAt, hlt, ← v6_octet h hlt]

/-- An address that is encoded is decoded again and is what the kernel reads, in
network order, whatever the bytes past its length are. -/
theorem intoRawAddr_encodes (order : ByteOrder) (addr : SocketAddr) (raw : SocketAddrCRepr)
    (h : AgreesWith order addr raw) : Encodes order addr raw (intoRawAddr order addr).2 where
  decoded := fromRawAddr_of_endpoint (endpoint_eq h)
  seen := endpoint_eq h
  portHigh := port_byte h Nat.zero_lt_two
  portLow := port_byte h Nat.one_lt_two
  octets := fun _ hi => octets_eq h hi

end Encoding

/-- Port 8080 of `127.0.0.1` on a little-endian host, with sevens past its length. -/
theorem local_port_encodes :
    Encodes .little (.v4 #v[127, 0, 0, 1] 8080)
      ⟨#v[2, 0, 31, 144, 127, 0, 0, 1, 0, 0, 0, 0, 0, 0, 0, 0, 7, 7, 7, 7, 7, 7, 7, 7, 7, 7, 7, 7]⟩
      16 := by
  refine intoRawAddr_encodes .little (.v4 #v[127, 0, 0, 1] 8080) _ ?_
  unfold AgreesWith
  decide

end Inel.Reactor
