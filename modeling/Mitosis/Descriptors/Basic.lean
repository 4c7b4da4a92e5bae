import Mitosis.OsNetwork.Bytes

/-!
# The fixed-size descriptors

Registers, memory areas and the RDMA coordinates of the parent's machine are
plain structs that are serialised by one memory copy each.  How the compiler
lays out their fields is not fixed by the source, so a layout is a parameter:
one codec for each struct.
-/

namespace Mitosis.Descriptors

open Support (Codec)

/-- The saved user registers, which are the kernel's `pt_regs`. -/
structure StackRegisters where
  r15 : UInt64
  r14 : UInt64
  r13 : UInt64
  r12 : UInt64
  bp : UInt64
  bx : UInt64
  r11 : UInt64
  r10 : UInt64
  r9 : UInt64
  r8 : UInt64
  ax : UInt64
  cx : UInt64
  dx : UInt64
  si : UInt64
  di : UInt64
  origAx : UInt64
  ip : UInt64
  cs : UInt64
  flags : UInt64
  sp : UInt64
  ss : UInt64
deriving DecidableEq, Inhabited

structure RegDescriptor where
  others : StackRegisters
  fs : UInt64
  gs : UInt64
deriving DecidableEq, Inhabited

/-- A memory area of the parent: its range, flags and protection. -/
structure VMADescriptor where
  range : UInt64 × UInt64
  flags : UInt64
  prot : UInt64
  isAnonymous : Bool
deriving DecidableEq

namespace VMADescriptor

def getStart (v : VMADescriptor) : UInt64 := v.range.1

def getEnd (v : VMADescriptor) : UInt64 := v.range.2

end VMADescriptor

/-- How to reach the parent's memory. -/
structure RDMADescriptor where
  serviceId : UInt64
  portNum : UInt8
  gid : UInt64 × UInt64
  lid : UInt16
  rkey : UInt32
  dctKey : UInt64
  dctNum : UInt32
  macId : UInt64
deriving DecidableEq, Inhabited

/-- The memory images of the three structs. -/
structure Layout where
  regs : Codec RegDescriptor
  vma : Codec VMADescriptor
  rdma : Codec RDMADescriptor

namespace Layout

open Support.Codec (u64 u32 u16 u8 bool)

/-- The fields of `pt_regs` in order. -/
def packedRegisters : Codec StackRegisters :=
  (u64.prod <| u64.prod <| u64.prod <| u64.prod <| u64.prod <| u64.prod <|
    u64.prod <| u64.prod <| u64.prod <| u64.prod <| u64.prod <| u64.prod <|
    u64.prod <| u64.prod <| u64.prod <| u64.prod <| u64.prod <| u64.prod <|
    u64.prod <| u64.prod u64).map
  { toFun := fun (a, b, c, d, e, f, g, h, i, j, k, l, m, n, o, p, q, r, s, t,
      u) => ⟨a, b, c, d, e, f, g, h, i, j, k, l, m, n, o, p, q, r, s, t, u⟩
    invFun := fun x => (x.r15, x.r14, x.r13, x.r12, x.bp, x.bx, x.r11, x.r10,
      x.r9, x.r8, x.ax, x.cx, x.dx, x.si, x.di, x.origAx, x.ip, x.cs, x.flags,
      x.sp, x.ss)
    left_inv := fun _ => rfl
    right_inv := fun _ => rfl }

/-- A layout with the fields in their order of declaration and padding behind
the last one. -/
def packed : Layout where
  regs := (packedRegisters.prod (u64.prod u64)).map
    { toFun := fun (others, fs, gs) => ⟨others, fs, gs⟩
      invFun := fun r => (r.others, r.fs, r.gs)
      left_inv := fun _ => rfl
      right_inv := fun _ => rfl }
  vma := (((u64.prod u64).prod (u64.prod (u64.prod bool))).map
    { toFun := fun (range, flags, prot, isAnonymous) =>
        ⟨range, flags, prot, isAnonymous⟩
      invFun := fun v => (v.range, v.flags, v.prot, v.isAnonymous)
      left_inv := fun _ => rfl
      right_inv := fun _ => rfl }).pad 7
  rdma := ((u64.prod (u8.prod ((u64.prod u64).prod (u16.prod (u32.prod
    (u64.prod (u32.prod u64))))))).map
    { toFun := fun (serviceId, portNum, gid, lid, rkey, dctKey, dctNum,
        macId) => ⟨serviceId, portNum, gid, lid, rkey, dctKey, dctNum, macId⟩
      invFun := fun d => (d.serviceId, d.portNum, d.gid, d.lid, d.rkey,
        d.dctKey, d.dctNum, d.macId)
      left_inv := fun _ => rfl
      right_inv := fun _ => rfl }).pad 5

end Layout

end Mitosis.Descriptors
