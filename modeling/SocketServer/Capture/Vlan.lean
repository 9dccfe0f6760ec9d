import SocketServer.Lib.Bytes

/-!
# Restoring VLAN tags (`_restore_vlan` of `capture.py`)

The kernel takes the 802.1Q tag out of a frame before a packet socket sees it, and reports it in a `PACKET_AUXDATA`
message beside the frame. `restoreVlan` puts it back. `KernelDelivers` says what the socket delivers for a frame on
the wire, and `restoreVlan_delivered` that the frame on the wire comes out.
-/

namespace SocketServer.Capture

open Bytes

/-! ### The code -/

def solPacket : Nat := 263

def packetAuxdata : Nat := 8

def tpStatusVlanValid : Nat := 0x10

def tpStatusVlanTpidValid : Nat := 0x40

def ethP8021q : Nat := 0x8100

/-- A control message of `recvmsg`. -/
structure Cmsg where
  level : Nat
  type : Nat
  data : Bytes
  deriving DecidableEq, Repr

def Cmsg.isAuxdata (c : Cmsg) : Bool := c.level == solPacket && c.type == packetAuxdata

/-- `tpacket_auxdata`. -/
structure Auxdata where
  tpStatus : Nat
  tpLen : Nat
  tpSnaplen : Nat
  tpMac : Nat
  tpNet : Nat
  tpVlanTci : Nat
  tpVlanTpid : Nat
  deriving DecidableEq, Repr

/-- `struct.calcsize("=IIIHHHH")`. -/
def auxdataSize : Nat := 20

section

-- The byte order of the host, which `=` of a format stands for.
variable (host : Endian)

/-- `struct.unpack("=IIIHHHH", aux)`. -/
def unpackAuxdata (aux : Bytes) : Auxdata where
  tpStatus := decode host (slice aux 0 4)
  tpLen := decode host (slice aux 4 8)
  tpSnaplen := decode host (slice aux 8 12)
  tpMac := decode host (slice aux 12 14)
  tpNet := decode host (slice aux 14 16)
  tpVlanTci := decode host (slice aux 16 18)
  tpVlanTpid := decode host (slice aux 18 20)

/-- `tp_vlan_tci` says something, the macro `VLAN_VALID`. -/
def Auxdata.vlanValid (aux : Auxdata) : Bool := aux.tpVlanTci != 0 || aux.tpStatus &&& tpStatusVlanValid != 0

/-- The TPID of the tag, the macro `VLAN_TPID`. -/
def Auxdata.vlanTpid (aux : Auxdata) : Nat :=
  if aux.tpVlanTpid != 0 || aux.tpStatus &&& tpStatusVlanTpidValid != 0 then aux.tpVlanTpid else ethP8021q

def restoreVlan (data : Bytes) (ancdata : List Cmsg) : Bytes :=
  match ancdata.find? Cmsg.isAuxdata with
  | none => data
  | some cmsg =>
    if cmsg.data.length < auxdataSize then data
    else
      let aux := unpackAuxdata host (cmsg.data.take auxdataSize)
      if !aux.vlanValid then data
      else if data.length < 12 then data
      else data.take 12 ++ (encode .big 2 aux.vlanTpid ++ encode .big 2 aux.tpVlanTci) ++ data.drop 12

/-! ### The kernel -/

/-- The fields fit the structure. -/
structure Auxdata.Fits (aux : Auxdata) : Prop where
  tpStatus : aux.tpStatus < 256 ^ 4
  tpLen : aux.tpLen < 256 ^ 4
  tpSnaplen : aux.tpSnaplen < 256 ^ 4
  tpMac : aux.tpMac < 256 ^ 2
  tpNet : aux.tpNet < 256 ^ 2
  tpVlanTci : aux.tpVlanTci < 256 ^ 2
  tpVlanTpid : aux.tpVlanTpid < 256 ^ 2

/-- The bytes of the structure in memory, which has no padding. -/
def packAuxdata (aux : Auxdata) : Bytes :=
  encode host 4 aux.tpStatus ++ encode host 4 aux.tpLen ++ encode host 4 aux.tpSnaplen ++ encode host 2 aux.tpMac ++
    encode host 2 aux.tpNet ++ encode host 2 aux.tpVlanTci ++ encode host 2 aux.tpVlanTpid

def auxdataMessage (aux : Auxdata) : Cmsg := ⟨solPacket, packetAuxdata, packAuxdata host aux⟩

def vlanTag (tpid tci : Nat) : Bytes := encode .big 2 tpid ++ encode .big 2 tci

/-- What a packet socket delivers for a frame on the wire: the frame itself with no VLAN information if it has no
tag, the frame without its tag and the tag in the only `PACKET_AUXDATA` message if it has one. -/
inductive KernelDelivers : Bytes → Bytes → List Cmsg → Prop
  | untagged {frame : Bytes} {ancdata : List Cmsg} (long : 14 ≤ frame.length) (short : frame.length ≤ 65535)
      (plain : ∀ cmsg ∈ ancdata, cmsg.isAuxdata → ∃ aux : Auxdata, aux.Fits ∧ cmsg = auxdataMessage host aux ∧
        aux.tpVlanTci = 0 ∧ aux.tpStatus &&& tpStatusVlanValid = 0) :
      KernelDelivers frame frame ancdata
  | tagged {macs rest : Bytes} {tpid tci : Nat} {aux : Auxdata} {before after : List Cmsg}
      (hmacs : macs.length = 12) (short : macs.length + rest.length ≤ 65535) (fits : aux.Fits)
      (valid : aux.tpStatus &&& tpStatusVlanValid ≠ 0) (tpidValid : aux.tpStatus &&& tpStatusVlanTpidValid ≠ 0)
      (htci : aux.tpVlanTci = tci) (htpid : aux.tpVlanTpid = tpid)
      (only : ∀ cmsg ∈ before ++ after, cmsg.isAuxdata = false) :
      KernelDelivers (macs ++ vlanTag tpid tci ++ rest) (macs ++ rest) (before ++ auxdataMessage host aux :: after)

/-! ### The frame on the wire comes out -/

@[simp] theorem packAuxdata_length (aux : Auxdata) : (packAuxdata host aux).length = auxdataSize := by
  simp [packAuxdata, auxdataSize]

@[simp] theorem vlanTag_length (tpid tci : Nat) : (vlanTag tpid tci).length = 4 := by simp [vlanTag]

theorem unpackAuxdata_packAuxdata {aux : Auxdata} (h : aux.Fits) :
    unpackAuxdata host (packAuxdata host aux) = aux := by
  have hread {w n : Nat} (hn : n < 256 ^ w) : decode host (encode host w n) = n := decode_encode_of_lt hn
  simp [unpackAuxdata, packAuxdata, slice_append_left, slice_append_right, slice_all,
    hread h.tpStatus, hread h.tpLen, hread h.tpSnaplen, hread h.tpMac, hread h.tpNet, hread h.tpVlanTci,
    hread h.tpVlanTpid]

theorem restoreVlan_of_find {ancdata : List Cmsg} {aux : Auxdata}
    (h : ancdata.find? Cmsg.isAuxdata = some (auxdataMessage host aux)) (fits : aux.Fits) (data : Bytes) :
    restoreVlan host data ancdata =
      if !aux.vlanValid then data
      else if data.length < 12 then data
      else data.take 12 ++ vlanTag aux.vlanTpid aux.tpVlanTci ++ data.drop 12 := by
  have hread : unpackAuxdata host ((packAuxdata host aux).take auxdataSize) = aux := by
    rw [List.take_of_length_le (Nat.le_of_eq (packAuxdata_length host aux)), unpackAuxdata_packAuxdata host fits]
  rw [restoreVlan, h]
  simp only [auxdataMessage, packAuxdata_length, Nat.lt_irrefl, if_false, hread]
  rfl

/-- **The frame on the wire comes out** of what the socket delivers. -/
theorem restoreVlan_delivered {frame data : Bytes} {ancdata : List Cmsg}
    (h : KernelDelivers host frame data ancdata) : restoreVlan host data ancdata = frame := by
  cases h with
  | untagged long short plain =>
    cases hfind : ancdata.find? Cmsg.isAuxdata with
    | none => rw [restoreVlan, hfind]
    | some cmsg =>
      obtain ⟨aux, fits, rfl, htci, hstatus⟩ := plain cmsg (List.mem_of_find?_eq_some hfind)
        (List.find?_some hfind)
      have hvalid : aux.vlanValid = false := by simp [Auxdata.vlanValid, htci, hstatus]
      rw [restoreVlan_of_find host hfind fits, hvalid]
      rfl
  | @tagged macs rest tpid tci aux before after hmacs short fits valid tpidValid htci htpid only =>
    have hfind : (before ++ auxdataMessage host aux :: after).find? Cmsg.isAuxdata =
        some (auxdataMessage host aux) := by
      have hbefore : before.find? Cmsg.isAuxdata = none :=
        List.find?_eq_none.mpr fun cmsg hcmsg => by simp [only cmsg (List.mem_append_left after hcmsg)]
      rw [List.find?_append, hbefore, Option.none_or, List.find?_cons_of_pos rfl]
    have hvalid : aux.vlanValid = true := by simp [Auxdata.vlanValid, valid]
    have htag : aux.vlanTpid = tpid := by
      rw [Auxdata.vlanTpid, if_pos (by simp [tpidValid]), htpid]
    have hlong : ¬ (macs ++ rest).length < 12 := by rw [List.length_append]; omega
    rw [restoreVlan_of_find host hfind fits, hvalid, if_neg (by decide), if_neg hlong, htag, htci,
      List.take_left' hmacs, List.drop_left' hmacs]

end

end SocketServer.Capture
