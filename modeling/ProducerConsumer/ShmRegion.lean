import Mathlib.Data.Nat.Notation
import ProducerConsumer.Lib.AddressSpace
import ProducerConsumer.Lib.Machine
import ProducerConsumer.Lib.Mirror
import ProducerConsumer.Ring

/-!
# The mirrored region

`MirroredShmRegion` with the system calls it makes, in one process: its address space, its open descriptors, and the
variables that hold a region.  `shm_open`, `fstat`, `ftruncate` and `mmap` may fail, and where `mmap` may choose an address
it chooses any free range; `shm_unlink`, `munmap` and `close`, whose results the code does not look at, do what they are
asked.  The names and the objects are shared with other processes, which create and unlink objects and store to them at
any time, and give an object its size once, as `create` does.  The calls of one function are taken as one step, since what
other processes do between two of them has no effect on the addresses of this one.
-/

namespace ProducerConsumer

open AddressSpace Mirrored Transition

/-! ### The system -/

/-- What an address refers to: something else of the process, a reservation, or a byte of an object. -/
inductive Backing
  | elsewhere
  | reserved
  | shared (object offset : Nat)
deriving DecidableEq

/-- A shared memory object, its size an `off_t`. -/
structure MemoryObject where
  size : Nat
  bytes : Nat → U8
  size_lt : size < 2 ^ 63

/-- The part of the system that regions use.  `fds` are the objects of the open descriptors. -/
structure ShmSystem where
  names : String → Option Nat
  objects : Nat → MemoryObject
  next : Nat
  space : Space Backing
  fds : List Nat

/-- What the system does about the calls of one function: whether a call succeeds, the address it would choose, and which
pages a failed `MAP_FIXED` leaves. -/
structure SystemChoice where
  open_ : Bool
  stat : Bool
  resize : Bool
  header : Option Nat
  base : Option Nat
  half : Nat → Bool
  kept : Nat → Bool

inductive ShmError
  | invalidArgument (text : String)
  | runtimeError (text : String)
  | systemError (what : String)
deriving DecidableEq

/-- The size of a page. -/
structure PageSize where
  bytes : Nat
  pos : 0 < bytes
  le : bytes ≤ 2 ^ 62

namespace ShmSystem

def shmUnlink (s : ShmSystem) (name : String) : ShmSystem := { s with names := Function.update s.names name none }

/-- A free range, in the part of the address space that is for processes. -/
def Mappable (s : ShmSystem) (base len : Nat) : Prop := 0 < len ∧ 0 < base ∧ base + len ≤ 2 ^ 63 ∧ s.space.Free base len

instance (s : ShmSystem) (base len : Nat) : Decidable (s.Mappable base len) := by
  unfold Mappable
  infer_instance

/-- The address that `mmap` returns when it may choose one. -/
def mmapAddress (s : ShmSystem) (choice : Option Nat) (len : Nat) : Option Nat :=
  choice.filter fun base => s.Mappable base len

def mmap (s : ShmSystem) (base len : Nat) (f : Nat → Backing) : ShmSystem := { s with space := s.space.map base len f }

/-- `MAP_FIXED` that fails may have unmapped some of the range. -/
def mmapFailed (s : ShmSystem) (base len : Nat) (kept : Nat → Bool) : ShmSystem :=
  { s with space := s.space.punch base len kept }

/-- A call that succeeds: `release` ignores its result, and a failed one would leave the pages as they are. -/
def munmap (s : ShmSystem) (base len : Nat) : ShmSystem := { s with space := s.space.unmap base len }

/-- `munmap`, unless the pointer is null. -/
def munmapPointer (s : ShmSystem) (pointer : Option Nat) (len : Nat) : ShmSystem :=
  match pointer with
  | some base => s.munmap base len
  | none => s

def close (s : ShmSystem) (object : Nat) : ShmSystem := { s with fds := s.fds.erase object }

/-- `shm_open` with `O_CREAT | O_EXCL`. -/
def shmCreate (s : ShmSystem) (name : String) (success : Bool) : Option (Nat × ShmSystem) :=
  if success = true ∧ s.names name = none then
    some (s.next, { s with
      names := Function.update s.names name (some s.next)
      objects := Function.update s.objects s.next ⟨0, fun _ => 0, by decide⟩
      next := s.next + 1
      fds := s.next :: s.fds })
  else none

/-- `ftruncate`; a size of 2^63 or more would be negative. -/
def ftruncate (s : ShmSystem) (object size : Nat) (success : Bool) : Option ShmSystem :=
  if h : size < 2 ^ 63 ∧ success = true then
    some { s with objects := Function.update s.objects object { s.objects object with size := size, size_lt := h.1 } }
  else none

end ShmSystem

/-! ### The region -/

/-- A `MirroredShmRegion`.  `object` is the object that its pages are from, which the code does not keep. -/
structure MirroredShmRegion where
  name : String
  header : Option Nat
  data : Option Nat
  headerBytes : Nat
  dataBytes : Nat
  owner : Bool
  object : Nat

def kNameError : String := "shared memory name must look like '/name' (single leading slash)"

def kCapacityError : String := "shared memory data capacity must be a non-zero multiple of the page size"

/-- The names that `validate_name` accepts. -/
def validateName (name : String) : Bool :=
  match name.toList with
  | '/' :: c :: cs => !(c :: cs).contains '/'
  | _ => false

namespace MirroredShmRegion

def unlink (region : MirroredShmRegion) (s : ShmSystem) : ShmSystem × MirroredShmRegion :=
  if region.owner then (s.shmUnlink region.name, { region with owner := false }) else (s, region)

/-- `release`, with the sizes in 64 bits. -/
def release (region : MirroredShmRegion) (s : ShmSystem) : ShmSystem × MirroredShmRegion :=
  let (s, region) := region.unlink s
  let s := s.munmapPointer region.data (2 * region.dataBytes % 2 ^ 64)
  let s := s.munmapPointer region.header region.headerBytes
  (s, { region with header := none, data := none })

/-- What the move constructor leaves. -/
def movedFrom (region : MirroredShmRegion) : MirroredShmRegion := ⟨"", none, none, 0, 0, false, region.object⟩

/-- The loop of `map`: the object is mapped into the halves of the reserved range. -/
def mapHalves (k : SystemChoice) (region : MirroredShmRegion) (base : Nat) (s : ShmSystem) :
    List Nat → Except ShmError MirroredShmRegion × ShmSystem
  | [] => (.ok region, s)
  | half :: halves =>
    let target := base + half * region.dataBytes
    if k.half half then
      mapHalves k region base
        (s.mmap target region.dataBytes fun i => .shared region.object (region.headerBytes + i)) halves
    else
      (.error (.systemError "mmap(data)"), (region.release (s.mmapFailed target region.dataBytes k.kept)).1)

/-- `map`.  The region under construction is released when a call fails. -/
def map (k : SystemChoice) (s : ShmSystem) (object : Nat) (name : String) (headerBytes dataBytes : Nat) (owner : Bool) :
    Except ShmError MirroredShmRegion × ShmSystem :=
  let region : MirroredShmRegion := ⟨name, none, none, headerBytes, dataBytes, owner, object⟩
  match s.mmapAddress k.header headerBytes with
  | none => (.error (.systemError "mmap(header)"), (region.release s).1)
  | some header =>
    let s := s.mmap header headerBytes (.shared object)
    let region := { region with header := some header }
    match s.mmapAddress k.base (2 * dataBytes % 2 ^ 64) with
    | none => (.error (.systemError "mmap(reserve)"), (region.release s).1)
    | some base =>
      let s := s.mmap base (2 * dataBytes % 2 ^ 64) fun _ => .reserved
      mapHalves k { region with data := some base } base s [0, 1]

def create (page : PageSize) (k : SystemChoice) (s : ShmSystem) (name : String) (dataCapacity : U64) :
    Except ShmError MirroredShmRegion × ShmSystem :=
  if validateName name = false then (.error (.invalidArgument kNameError), s)
  else if dataCapacity = 0 ∨ dataCapacity.toNat % page.bytes ≠ 0 then (.error (.invalidArgument kCapacityError), s)
  else
    match (s.shmUnlink name).shmCreate name k.open_ with
    | none => (.error (.systemError "shm_open(O_CREAT)"), s.shmUnlink name)
    | some (object, s) =>
      match s.ftruncate object ((page.bytes + dataCapacity.toNat) % 2 ^ 64) k.resize with
      | none => (.error (.systemError "ftruncate"), (s.shmUnlink name).close object)
      | some s =>
        match map k s object name page.bytes dataCapacity.toNat true with
        | (.ok region, s) => (.ok region, s.close object)
        | (.error e, s) => (.error e, (s.shmUnlink name).close object)

def tryOpen (page : PageSize) (k : SystemChoice) (s : ShmSystem) (name : String) :
    Except ShmError (Option MirroredShmRegion) × ShmSystem :=
  if validateName name = false then (.error (.invalidArgument kNameError), s)
  else if k.open_ = false then (.error (.systemError "shm_open"), s)
  else
    match s.names name with
    | none => (.ok none, s)
    | some object =>
      let s := { s with fds := object :: s.fds }
      let size := (s.objects object).size
      if k.stat = false then (.error (.systemError "fstat"), s.close object)
      else if size = 0 then (.ok none, s.close object)
      else if size < 2 * page.bytes ∨ (size - page.bytes) % page.bytes ≠ 0 then
        (.error (.runtimeError ("shared memory object '" ++ name ++ "' has an unexpected size")), s.close object)
      else
        match map k s object name page.bytes (size - page.bytes) false with
        | (.ok region, s) => (.ok (some region), s.close object)
        | (.error e, s) => (.error e, s.close object)

end MirroredShmRegion

namespace ShmSystem

/-- A store of any process to an object. -/
def poke (s : ShmSystem) (object offset : Nat) (byte : U8) : ShmSystem :=
  let bytes := Function.update (s.objects object).bytes offset byte
  { s with objects := Function.update s.objects object { s.objects object with bytes := bytes } }

/-- What a load of the process finds; behind the end of an object, at a reservation and where nothing is mapped it is a
fault. -/
def load (s : ShmSystem) (a : Nat) : Option U8 :=
  match s.space.get a with
  | some (.shared object offset) =>
    if offset < (s.objects object).size then some ((s.objects object).bytes offset) else none
  | _ => none

def store (s : ShmSystem) (a : Nat) (byte : U8) : Option ShmSystem :=
  match s.space.get a with
  | some (.shared object offset) => if offset < (s.objects object).size then some (s.poke object offset byte) else none
  | _ => none

end ShmSystem

/-! ### The process -/

/-- The process and its variables of type `MirroredShmRegion`; `foreign` is what the process has mapped otherwise. -/
structure RegionProcess where
  sys : ShmSystem
  foreign : Space Backing
  region : Nat → Option MirroredShmRegion

/-- What other processes do: an object is created under a name, one without a size gets its size, a name is removed, a
byte is stored.  An object that has its size is not resized, so that none shrinks under a region that maps it. -/
inductive OtherAction
  | create (name : String)
  | resize (object size : Nat)
  | remove (name : String)
  | poke (object offset : Nat) (byte : U8)

inductive RegionAction
  | create (x : Nat) (name : String) (dataCapacity : U64) (k : SystemChoice)
  | tryOpen (x : Nat) (name : String) (k : SystemChoice)
  | moveConstruct (x y : Nat)
  | moveAssign (x y : Nat)
  | unlink (x : Nat)
  | destroy (x : Nat)
  | store (x offset : Nat) (byte : U8)
  | mapElsewhere (base len : Nat)
  | unmapElsewhere (base len : Nat)
  | other (a : OtherAction)

namespace RegionProcess

def set (s : RegionProcess) (x : Nat) (region : Option MirroredShmRegion) : RegionProcess :=
  { s with region := Function.update s.region x region }

def otherStep (s : ShmSystem) : OtherAction → Option ShmSystem
  | .create name => (s.shmCreate name true).map fun created => { created.2 with fds := s.fds }
  | .resize object size => if (s.objects object).size = 0 then s.ftruncate object size true else none
  | .remove name => some (s.shmUnlink name)
  | .poke object offset byte => some (s.poke object offset byte)

def step (page : PageSize) (s : RegionProcess) : RegionAction → Option RegionProcess
  | .create x name dataCapacity k =>
    match s.region x with
    | some _ => none
    | none =>
      match MirroredShmRegion.create page k s.sys name dataCapacity with
      | (.ok region, sys) => some (set { s with sys := sys } x (some region))
      | (.error _, sys) => some { s with sys := sys }
  | .tryOpen x name k =>
    match s.region x with
    | some _ => none
    | none =>
      match MirroredShmRegion.tryOpen page k s.sys name with
      | (.ok region, sys) => some (set { s with sys := sys } x region)
      | (.error _, sys) => some { s with sys := sys }
  | .moveConstruct x y =>
    match s.region x, s.region y with
    | none, some region => some ((s.set y (some region.movedFrom)).set x (some region))
    | _, _ => none
  | .moveAssign x y =>
    match s.region x, s.region y with
    | some old, some region =>
      if x = y then some s
      else some ((set { s with sys := (old.release s.sys).1 } y (some region.movedFrom)).set x (some region))
    | _, _ => none
  | .unlink x =>
    (s.region x).map fun region => set { s with sys := (region.unlink s.sys).1 } x (some (region.unlink s.sys).2)
  | .destroy x => (s.region x).map fun region => set { s with sys := (region.release s.sys).1 } x none
  | .store x offset byte =>
    match (s.region x).bind MirroredShmRegion.data with
    | some data => (s.sys.store (data + offset) byte).map fun sys => { s with sys := sys }
    | none => none
  | .mapElsewhere base len =>
    if s.sys.Mappable base len then
      some { s with sys := s.sys.mmap base len fun _ => .elsewhere, foreign := s.foreign.map base len fun _ => .elsewhere }
    else none
  | .unmapElsewhere base len =>
    if ∀ i < len, (s.foreign.get (base + i)).isSome = true then
      some { s with sys := s.sys.munmap base len, foreign := s.foreign.unmap base len }
    else none
  | .other a => (otherStep s.sys a).map fun sys => { s with sys := sys }

/-- No region, and no descriptor of one; any names and objects. -/
def Initial (s : RegionProcess) : Prop :=
  s.sys.space = s.foreign ∧ s.sys.fds = [] ∧ (∀ x, s.region x = none) ∧
    ∀ name object, s.sys.names name = some object → object < s.sys.next

end RegionProcess

def regionMachine (page : PageSize) : Machine RegionProcess RegionAction where
  init := RegionProcess.Initial
  step := RegionProcess.step page

/-! ### The addresses of a region -/

namespace MirroredShmRegion

/-- The addresses that `release` unmaps. -/
def Covers (region : MirroredShmRegion) (a : Nat) : Prop :=
  (∃ header, region.header = some header ∧ header ≤ a ∧ a < header + region.headerBytes) ∨
    ∃ data, region.data = some data ∧ data ≤ a ∧ a < data + 2 * region.dataBytes

/-- What a region has mapped: its header, and its data twice. -/
def footprint (region : MirroredShmRegion) : Space Backing :=
  match region.header, region.data with
  | some header, some data =>
    ((Space.empty.map header region.headerBytes (.shared region.object)).map data region.dataBytes
      fun i => .shared region.object (region.headerBytes + i)).map (data + region.dataBytes) region.dataBytes
      fun i => .shared region.object (region.headerBytes + i)
  | _, _ => Space.empty

/-- A region that has been moved from. -/
def Vacant (region : MirroredShmRegion) : Prop := region.header = none ∧ region.data = none

/-- A region that is mapped as a whole, all of it within its object. -/
structure Mapped (page : PageSize) (s : ShmSystem) (region : MirroredShmRegion) (headerAt dataAt : Nat) : Prop where
  header : region.header = some headerAt
  data : region.data = some dataAt
  headerBytes : region.headerBytes = page.bytes
  dataBytes_pos : 0 < region.dataBytes
  fits : 2 * region.dataBytes < 2 ^ 64
  apart : headerAt + region.headerBytes ≤ dataAt ∨ dataAt + 2 * region.dataBytes ≤ headerAt
  size : (s.objects region.object).size = region.headerBytes + region.dataBytes
  known : region.object < s.next

def Ok (page : PageSize) (s : ShmSystem) (region : MirroredShmRegion) : Prop :=
  region.Vacant ∨ ∃ header data, region.Mapped page s header data

variable {ι : Type} [DecidableEq ι] {part : ι → Space Backing} {i : ι} {region : MirroredShmRegion} {P : Space Backing}
  {s t : ShmSystem}

theorem Vacant.footprint (h : region.Vacant) : region.footprint = Space.empty := by
  unfold MirroredShmRegion.footprint
  rw [h.1]

/-- The owner `i` has `P` mapped, all of it where `region` is to be unmapped, and nobody else has anything there. -/
structure Holds (part : ι → Space Backing) (i : ι) (region : MirroredShmRegion) (P space : Space Backing) : Prop where
  tiles : Tiles (Function.update part i P) space
  dom : ∀ a, P.get a ≠ none → region.Covers a
  own : ∀ j a, region.Covers a → j ≠ i → (part j).get a = none
  fits : region.data ≠ none → 2 * region.dataBytes < 2 ^ 64

namespace Holds

theorem exclusive (h : Holds part i region P s.space) {base len : Nat}
    (hcovers : ∀ a, base ≤ a → a < base + len → region.Covers a) :
    Tiles.Exclusive (Function.update part i P) i base len := by
  intro j a hle hlt hj
  by_contra hne
  rw [Function.update_of_ne hne] at hj
  exact hj (h.own j a (hcovers a hle hlt) hne)

theorem unmap (h : Holds part i region P s.space) {base len : Nat}
    (hcovers : ∀ a, base ≤ a → a < base + len → region.Covers a) :
    Holds part i region (P.unmap base len) (s.munmap base len).space := by
  have htiles := h.tiles.unmap (h.exclusive hcovers)
  rw [Function.update_self, Function.update_idem] at htiles
  refine ⟨htiles, fun a ha => h.dom a fun hnone => ha ?_, h.own, h.fits⟩
  by_cases hin : base ≤ a ∧ a < base + len
  · exact Space.get_unmap_inside hin
  · rw [Space.get_unmap_outside hin, hnone]

theorem eq_empty (h : Holds part i region P s.space) (hcovers : ∀ a, region.Covers a → P.get a = none) :
    P = Space.empty := by
  ext a b
  rw [Space.get_empty]
  constructor
  · intro hb
    rw [hcovers a (h.dom a (by simp [hb]))] at hb
    exact hb
  · exact nofun

end Holds

/-- Whatever was mapped so far, after `release` nothing of it is. -/
theorem Holds.release (h : Holds part i region P s.space) :
    Tiles (Function.update part i Space.empty) (region.release s).1.space := by
  have hspace : (region.release s).1.space =
      ((s.munmapPointer region.data (2 * region.dataBytes % 2 ^ 64)).munmapPointer region.header region.headerBytes).space := by
    obtain ⟨name, header, data, headerBytes, dataBytes, owner, object⟩ := region
    cases owner <;> cases data <;> cases header <;> rfl
  rw [hspace]
  -- the pages of the data first, then those of the header
  obtain ⟨Q, hQ, hdata⟩ : ∃ Q, Holds part i region Q (s.munmapPointer region.data (2 * region.dataBytes % 2 ^ 64)).space ∧
      ∀ data, region.data = some data → ∀ a, data ≤ a → a < data + 2 * region.dataBytes → Q.get a = none := by
    cases hdata : region.data with
    | none => exact ⟨P, h, nofun⟩
    | some data =>
      have hfits := Nat.mod_eq_of_lt (h.fits (by simp [hdata]))
      refine ⟨_, h.unmap fun a hle hlt => .inr ⟨data, hdata, hle, by rwa [hfits] at hlt⟩, ?_⟩
      rintro _ ⟨⟩ a hle hlt
      exact Space.get_unmap_inside ⟨hle, by rwa [hfits]⟩
  generalize s.munmapPointer region.data (2 * region.dataBytes % 2 ^ 64) = u at hQ ⊢
  cases hheader : region.header with
  | none =>
    have hempty : Q = Space.empty := hQ.eq_empty fun a ha => by
      rcases ha with ⟨header, hh, -⟩ | ⟨data, hd, hle, hlt⟩
      · rw [hheader] at hh
        cases hh
      · exact hdata data hd a hle hlt
    rw [← hempty]
    exact hQ.tiles
  | some header =>
    have hR : Holds part i region _ (u.munmap header region.headerBytes).space :=
      hQ.unmap fun a hle hlt => .inl ⟨header, hheader, hle, hlt⟩
    have hempty : Q.unmap header region.headerBytes = Space.empty := hR.eq_empty fun a ha => by
      by_cases hin : header ≤ a ∧ a < header + region.headerBytes
      · exact Space.get_unmap_inside hin
      · rw [Space.get_unmap_outside hin]
        rcases ha with ⟨_, hh, hle, hlt⟩ | ⟨data, hd, hle, hlt⟩
        · rw [hheader] at hh
          cases hh
          exact absurd ⟨hle, hlt⟩ hin
        · exact hdata data hd a hle hlt
    rw [← hempty]
    exact hR.tiles

/-! ### What `map` maps -/

namespace Holds

/-- Nothing is mapped yet. -/
theorem start (htiles : Tiles part s.space) (hempty : part i = Space.empty) (hheader : region.header = none)
    (hdata : region.data = none) : Holds part i region Space.empty s.space := by
  have hnot (a : Nat) : ¬region.Covers a := by
    rintro (⟨header, hh, -⟩ | ⟨data, hd, -⟩)
    · rw [hheader] at hh
      cases hh
    · rw [hdata] at hd
      cases hd
  refine ⟨?_, fun a ha => absurd Space.get_empty ha, fun j a ha => absurd ha (hnot a), fun hd => absurd hdata hd⟩
  rw [← hempty, Function.update_eq_self]
  exact htiles

/-- A free range is mapped, which `release` will then unmap. -/
theorem grow (h : Holds part i region P s.space) {base len : Nat} (hfree : s.space.Free base len) (f : Nat → Backing)
    (region' : MirroredShmRegion) (hcovers : ∀ a, region'.Covers a ↔ region.Covers a ∨ base ≤ a ∧ a < base + len)
    (hfits : region'.data ≠ none → 2 * region'.dataBytes < 2 ^ 64) :
    Holds part i region' (P.map base len f) (s.mmap base len f).space := by
  have hexclusive := h.tiles.exclusive_of_free hfree i
  have htiles := h.tiles.map (f := f) hexclusive
  rw [Function.update_self, Function.update_idem] at htiles
  refine ⟨htiles, fun a ha => ?_, fun j a ha hj => ?_, hfits⟩
  · rw [hcovers]
    exact (Space.map_ne_none ha).symm.imp_left (h.dom a)
  · rcases (hcovers a).1 ha with hold | ⟨hle, hlt⟩
    · exact h.own j a hold hj
    · by_contra hne
      refine hj (hexclusive j a hle hlt ?_)
      rw [Function.update_of_ne hj]
      exact hne

/-- `MAP_FIXED` in a range that is mapped. -/
theorem replace (h : Holds part i region P s.space) (base len : Nat) (f : Nat → Backing)
    (hcovers : ∀ a, base ≤ a → a < base + len → region.Covers a) :
    Holds part i region (P.map base len f) (s.mmap base len f).space := by
  have htiles := h.tiles.map (f := f) (h.exclusive hcovers)
  rw [Function.update_self, Function.update_idem] at htiles
  refine ⟨htiles, fun a ha => ?_, h.own, h.fits⟩
  rcases Space.map_ne_none ha with ⟨hle, hlt⟩ | hold
  · exact hcovers a hle hlt
  · exact h.dom a hold

/-- `MAP_FIXED` that fails. -/
theorem punch (h : Holds part i region P s.space) (base len : Nat) (kept : Nat → Bool)
    (hcovers : ∀ a, base ≤ a → a < base + len → region.Covers a) :
    Holds part i region (P.punch base len kept) (s.mmapFailed base len kept).space := by
  have htiles := h.tiles.punch (h.exclusive hcovers) kept
  rw [Function.update_self, Function.update_idem] at htiles
  refine ⟨htiles, fun a ha => ?_, h.own, h.fits⟩
  by_cases hin : base ≤ a ∧ a < base + len
  · exact hcovers a hin.1 hin.2
  · rw [Space.get_punch_outside hin] at ha
    exact h.dom a ha

end Holds

/-- What a function on regions leaves of the system but for the address space: it may remove names. -/
structure Frame (s t : ShmSystem) : Prop where
  objects : t.objects = s.objects
  next : t.next = s.next
  fds : t.fds = s.fds
  names : ∀ name object, t.names name = some object → s.names name = some object

theorem Frame.refl (s : ShmSystem) : Frame s s := ⟨rfl, rfl, rfl, fun _ _ => id⟩

theorem Frame.trans {u : ShmSystem} (h : Frame s t) (h' : Frame t u) : Frame s u :=
  ⟨h'.objects.trans h.objects, h'.next.trans h.next, h'.fds.trans h.fds, fun _ _ hn => h.names _ _ (h'.names _ _ hn)⟩

theorem frame_shmUnlink (s : ShmSystem) (name : String) : Frame s (s.shmUnlink name) := by
  refine ⟨rfl, rfl, rfl, fun other object hn => ?_⟩
  simp only [ShmSystem.shmUnlink, Function.update_apply] at hn
  split at hn
  · cases hn
  · exact hn

theorem frame_release (region : MirroredShmRegion) (s : ShmSystem) : Frame s (region.release s).1 := by
  have hunlink := frame_shmUnlink s region.name
  obtain ⟨name, header, data, headerBytes, dataBytes, owner, object⟩ := region
  cases owner <;> cases data <;> cases header <;>
    first
    | exact ⟨rfl, rfl, rfl, fun _ _ hn => hn⟩
    | exact ⟨rfl, rfl, rfl, hunlink.names⟩

/-- What `map` makes of the space and of the region. -/
def MapResult (part : ι → Space Backing) (i : ι) (object headerBytes dataBytes : Nat) (s : ShmSystem) :
    Except ShmError MirroredShmRegion × ShmSystem → Prop
  | (.ok region, t) => Frame s t ∧ Tiles (Function.update part i region.footprint) t.space ∧
      ∃ header data, region.header = some header ∧ region.data = some data ∧ region.headerBytes = headerBytes ∧
        region.dataBytes = dataBytes ∧ region.object = object ∧ 2 * dataBytes < 2 ^ 64 ∧
        (header + headerBytes ≤ data ∨ data + 2 * dataBytes ≤ header)
  | (.error _, t) => Frame s t ∧ Tiles part t.space

theorem mappable_of_mmapAddress {choice : Option Nat} {len base : Nat} (h : s.mmapAddress choice len = some base) :
    s.Mappable base len := by
  obtain ⟨-, h⟩ := Option.filter_eq_some_iff.1 h
  exact of_decide_eq_true h

/-- The halves replace all of the reservation. -/
theorem footprint_eq {headerAt dataAt : Nat} (hheader : region.header = some headerAt) (hdata : region.data = some dataAt) :
    region.footprint = ((((Space.empty.map headerAt region.headerBytes (.shared region.object)).map dataAt
      (2 * region.dataBytes) fun _ => .reserved).map dataAt region.dataBytes
      fun i => .shared region.object (region.headerBytes + i)).map (dataAt + region.dataBytes) region.dataBytes
      fun i => .shared region.object (region.headerBytes + i)) := by
  simp only [footprint, hheader, hdata]
  ext a b
  by_cases hsecond : dataAt + region.dataBytes ≤ a ∧ a < dataAt + region.dataBytes + region.dataBytes
  · obtain ⟨d, rfl⟩ := Nat.exists_eq_add_of_le hsecond.1
    rw [Space.get_map_inside (by omega), Space.get_map_inside (by omega)]
  · rw [Space.get_map_outside hsecond, Space.get_map_outside hsecond]
    by_cases hfirst : dataAt ≤ a ∧ a < dataAt + region.dataBytes
    · obtain ⟨d, rfl⟩ := Nat.exists_eq_add_of_le hfirst.1
      rw [Space.get_map_inside (by omega), Space.get_map_inside (by omega)]
    · have hout : ¬(dataAt ≤ a ∧ a < dataAt + 2 * region.dataBytes) := by omega
      rw [Space.get_map_outside hfirst, Space.get_map_outside hfirst, Space.get_map_outside hout]

theorem mapResult_map (htiles : Tiles part s.space) (hempty : part i = Space.empty) {headerBytes dataBytes : Nat}
    (hheader : 0 < headerBytes) (hdata : 0 < dataBytes)
    (hwrap : 2 * dataBytes < 2 ^ 64 ∨ 2 ^ 63 ≤ 2 * dataBytes % 2 ^ 64) (k : SystemChoice) (object : Nat) (name : String)
    (owner : Bool) :
    MapResult part i object headerBytes dataBytes s (map k s object name headerBytes dataBytes owner) := by
  have herror {region : MirroredShmRegion} {P : Space Backing} {u : ShmSystem} (hframe : Frame s u)
      (hholds : Holds part i region P u.space) (what : String) :
      MapResult part i object headerBytes dataBytes s (.error (.systemError what), (region.release u).1) := by
    refine ⟨hframe.trans (frame_release region u), ?_⟩
    have hreleased := hholds.release
    rwa [← hempty, Function.update_eq_self] at hreleased
  have hstart : Holds part i ⟨name, none, none, headerBytes, dataBytes, owner, object⟩ Space.empty s.space :=
    Holds.start htiles hempty rfl rfl
  unfold map
  cases hheaderAt : s.mmapAddress k.header headerBytes with
  | none => exact herror (Frame.refl s) hstart _
  | some headerAt =>
    obtain ⟨-, -, -, hfree⟩ := mappable_of_mmapAddress hheaderAt
    have hmapped := hstart.grow hfree (.shared object) ⟨name, some headerAt, none, headerBytes, dataBytes, owner, object⟩
      (fun a => by simp [Covers]) nofun
    have hframe : Frame s (s.mmap headerAt headerBytes (.shared object)) := ⟨rfl, rfl, rfl, fun _ _ hn => hn⟩
    dsimp only
    generalize s.mmap headerAt headerBytes (.shared object) = s₁ at hmapped hframe ⊢
    cases hdataAt : s₁.mmapAddress k.base (2 * dataBytes % 2 ^ 64) with
    | none => exact herror hframe hmapped _
    | some dataAt =>
      obtain ⟨-, hnull, hlimit, hfree₁⟩ := mappable_of_mmapAddress hdataAt
      -- a size that wraps is too large for `mmap`
      have hfits : 2 * dataBytes < 2 ^ 64 := by omega
      rw [Nat.mod_eq_of_lt hfits] at hfree₁ ⊢
      have hreserved := hmapped.grow hfree₁ (fun _ => .reserved)
        ⟨name, some headerAt, some dataAt, headerBytes, dataBytes, owner, object⟩
        (fun a => by simp [Covers]) fun _ => hfits
      have hapart : headerAt + headerBytes ≤ dataAt ∨ dataAt + 2 * dataBytes ≤ headerAt := by
        refine hfree₁.apart (fun d hd => ?_) (by omega) hheader
        rw [hmapped.tiles.sub i _ (.shared object d) (by rw [Function.update_self]; exact Space.get_map_inside hd)]
        exact Option.some_ne_none _
      have hframe₂ : Frame s (s₁.mmap dataAt (2 * dataBytes) fun _ => .reserved) :=
        hframe.trans ⟨rfl, rfl, rfl, fun _ _ hn => hn⟩
      dsimp only
      generalize s₁.mmap dataAt (2 * dataBytes) (fun _ => .reserved) = s₂ at hreserved hframe₂ ⊢
      have hhalf (a : Nat) (hle : dataAt ≤ a) (hlt : a < dataAt + 2 * dataBytes) :
          Covers ⟨name, some headerAt, some dataAt, headerBytes, dataBytes, owner, object⟩ a :=
        .inr ⟨dataAt, rfl, hle, hlt⟩
      simp only [mapHalves, Nat.zero_mul, Nat.one_mul, Nat.add_zero]
      split
      · have hfirst := hreserved.replace dataAt dataBytes (fun i => .shared object (headerBytes + i))
          fun a hle hlt => hhalf a hle (by omega)
        split
        · have hsecond := hfirst.replace (dataAt + dataBytes) dataBytes
            (fun i => .shared object (headerBytes + i)) fun a hle hlt => hhalf a (by omega) (by omega)
          refine ⟨hframe₂.trans ⟨rfl, rfl, rfl, fun _ _ hn => hn⟩, ?_, headerAt, dataAt, rfl, rfl, rfl, rfl, rfl, hfits, hapart⟩
          rw [footprint_eq rfl rfl]
          exact hsecond.tiles
        · have hholes := hfirst.punch (dataAt + dataBytes) dataBytes k.kept fun a hle hlt =>
            hhalf a (by omega) (by omega)
          exact herror (by exact ⟨hframe₂.objects, hframe₂.next, hframe₂.fds, hframe₂.names⟩) hholes _
      · have hholes := hreserved.punch dataAt dataBytes k.kept fun a hle hlt => hhalf a hle (by omega)
        exact herror (by exact ⟨hframe₂.objects, hframe₂.next, hframe₂.fds, hframe₂.names⟩) hholes _

/-- What every step leaves of the system but for the address space: an object that has its size keeps it. -/
structure Kept (s t : ShmSystem) : Prop where
  sizes : ∀ object, object < s.next → (s.objects object).size ≠ 0 → (t.objects object).size = (s.objects object).size
  next : s.next ≤ t.next
  fds : t.fds = s.fds
  names : (∀ name object, s.names name = some object → object < s.next) →
    ∀ name object, t.names name = some object → object < t.next

theorem Frame.kept (h : Frame s t) : Kept s t where
  sizes _ _ _ := by rw [h.objects]
  next := Nat.le_of_eq h.next.symm
  fds := h.fds
  names hs name object hn := h.next ▸ hs name object (h.names name object hn)

/-- What a call makes of the space: a region that is mapped as a whole, or nothing. -/
def CallResult (page : PageSize) (part : ι → Space Backing) (i : ι) (s : ShmSystem) :
    Except ShmError (Option MirroredShmRegion) × ShmSystem → Prop
  | (.ok (some region), t) => Kept s t ∧ Tiles (Function.update part i region.footprint) t.space ∧
      ∃ header data, region.Mapped page t header data
  | (_, t) => Kept s t ∧ Tiles part t.space

variable {page : PageSize}

theorem callResult_tryOpen (htiles : Tiles part s.space) (hempty : part i = Space.empty)
    (hnames : ∀ name object, s.names name = some object → object < s.next) (k : SystemChoice) (name : String) :
    CallResult page part i s (tryOpen page k s name) := by
  unfold tryOpen
  split
  · exact ⟨(Frame.refl s).kept, htiles⟩
  split
  · exact ⟨(Frame.refl s).kept, htiles⟩
  cases hname : s.names name with
  | none => exact ⟨(Frame.refl s).kept, htiles⟩
  | some object =>
    have hfailed : Kept s (ShmSystem.close { s with fds := object :: s.fds } object) :=
      ⟨fun _ _ _ => rfl, Nat.le_refl _, List.erase_cons_head .., fun hn => hn⟩
    dsimp only
    split
    · exact ⟨hfailed, htiles⟩
    split
    · exact ⟨hfailed, htiles⟩
    split
    · exact ⟨hfailed, htiles⟩
    rename_i hsize
    rw [not_or, not_not, Nat.not_lt] at hsize
    have hlt := (s.objects object).size_lt
    have hpage := page.pos
    have hresult : MapResult part i object page.bytes ((s.objects object).size - page.bytes)
        { s with fds := object :: s.fds } (map k { s with fds := object :: s.fds } object name page.bytes
          ((s.objects object).size - page.bytes) false) := by
      refine mapResult_map ?_ hempty hpage ?_ (.inl ?_) k object name false
      · exact htiles
      · omega
      · omega
    generalize map k _ object name page.bytes ((s.objects object).size - page.bytes) false = result at hresult ⊢
    obtain ⟨result, t⟩ := result
    have hclosed (hframe : Frame { s with fds := object :: s.fds } t) : Kept s (t.close object) := by
      refine ⟨fun _ _ _ => by rw [ShmSystem.close, hframe.objects], Nat.le_of_eq hframe.next.symm, ?_, fun hn _ _ hn' => ?_⟩
      · show t.fds.erase object = s.fds
        rw [hframe.fds]
        exact List.erase_cons_head ..
      · exact Nat.lt_of_lt_of_eq (hn _ _ (hframe.names _ _ hn')) hframe.next.symm
    cases result with
    | error e => exact ⟨hclosed hresult.1, hresult.2⟩
    | ok region =>
      obtain ⟨hframe, htiles', headerAt, dataAt, hh, hd, hhb, hdb, ho, hfits, hapart⟩ := hresult
      refine ⟨hclosed hframe, htiles', headerAt, dataAt, hh, hd, hhb, ?_, ?_, ?_, ?_, ?_⟩
      · omega
      · rw [hdb]
        exact hfits
      · rw [hhb, hdb]
        exact hapart
      · show (t.objects region.object).size = _
        rw [hframe.objects, ho, hhb, hdb]
        show (s.objects object).size = _
        omega
      · rw [ho]
        exact Nat.lt_of_lt_of_eq (hnames name object hname) hframe.next.symm

/-- The system after `create` has opened its object. -/
structure Created (s t : ShmSystem) : Prop where
  space : t.space = s.space
  next : t.next = s.next + 1
  fds : t.fds = s.next :: s.fds
  objects : ∀ object, object < s.next → t.objects object = s.objects object
  names : ∀ name object, t.names name = some object → object = s.next ∨ s.names name = some object

theorem created_shmCreate {name : String} {success : Bool} {object : Nat}
    (h : s.shmCreate name success = some (object, t)) : object = s.next ∧ Created s t := by
  obtain ⟨-, h⟩ := Option.ite_none_right_eq_some.1 h
  cases h
  refine ⟨rfl, rfl, rfl, rfl, fun o ho => Function.update_of_ne (Nat.ne_of_lt ho) _ _, fun other o hn => ?_⟩
  simp only [Function.update_apply] at hn
  split at hn
  · exact .inl (Option.some.inj hn).symm
  · exact .inr hn

theorem Created.of_shmUnlink {name : String} (h : Created (s.shmUnlink name) t) : Created s t :=
  ⟨h.space, h.next, h.fds, h.objects, fun _ _ hn => (h.names _ _ hn).imp_right ((frame_shmUnlink s name).names _ _)⟩

theorem Created.ftruncate (h : Created s t) {u : ShmSystem} {size : Nat} {success : Bool}
    (hu : t.ftruncate s.next size success = some u) : Created s u ∧ (u.objects s.next).size = size := by
  unfold ShmSystem.ftruncate at hu
  split at hu
  · cases hu
    refine ⟨⟨h.space, h.next, h.fds, fun o ho => ?_, h.names⟩, ?_⟩
    · exact (Function.update_of_ne (Nat.ne_of_lt ho) ..).trans (h.objects o ho)
    · show (Function.update t.objects s.next _ s.next).size = size
      rw [Function.update_self]
  · cases hu

/-- The end of `create`. -/
theorem Created.closed (h : Created s t) {u : ShmSystem} (hframe : Frame t u) : Kept s (u.close s.next) := by
  refine ⟨fun o ho _ => ?_, ?_, ?_, fun hn name object hn' => ?_⟩
  · show (u.objects o).size = (s.objects o).size
    rw [hframe.objects, h.objects o ho]
  · show s.next ≤ u.next
    rw [hframe.next, h.next]
    exact Nat.le_succ _
  · show u.fds.erase s.next = s.fds
    rw [hframe.fds, h.fds]
    exact List.erase_cons_head ..
  · show object < u.next
    rw [hframe.next, h.next]
    rcases h.names name object (hframe.names name object hn') with rfl | hold
    · exact Nat.lt_succ_self _
    · exact Nat.lt_succ_of_lt (hn name object hold)

theorem callResult_create (htiles : Tiles part s.space) (hempty : part i = Space.empty) (k : SystemChoice) (name : String)
    (dataCapacity : U64) :
    CallResult page part i s ((create page k s name dataCapacity).1.map some, (create page k s name dataCapacity).2) := by
  unfold create
  split
  · exact ⟨(Frame.refl s).kept, htiles⟩
  split
  · exact ⟨(Frame.refl s).kept, htiles⟩
  rename_i hcapacity
  rw [not_or] at hcapacity
  have hlt := dataCapacity.isLt
  have hpos : 0 < dataCapacity.toNat := by
    rw [Nat.pos_iff_ne_zero, Ne, ← BitVec.toNat_inj] at *
    exact hcapacity.1
  have hpage := page.le
  cases hopened : (s.shmUnlink name).shmCreate name k.open_ with
  | none => exact ⟨(frame_shmUnlink s name).kept, htiles⟩
  | some opened =>
    obtain ⟨object, s₁⟩ := opened
    obtain ⟨hobject, hunlinked⟩ := created_shmCreate hopened
    obtain rfl : object = s.next := hobject
    have hcreated := hunlinked.of_shmUnlink
    dsimp only
    cases hsized : s₁.ftruncate s.next ((page.bytes + dataCapacity.toNat) % 2 ^ 64) k.resize with
    | none =>
      refine ⟨hcreated.closed (frame_shmUnlink s₁ name), ?_⟩
      show Tiles part s₁.space
      rw [hcreated.space]
      exact htiles
    | some s₂ =>
      obtain ⟨hcreated₂, hsize⟩ := hcreated.ftruncate hsized
      have hsmall := (s₂.objects s.next).size_lt
      rw [hsize] at hsmall
      rw [← hcreated₂.space] at htiles
      have hresult : MapResult part i s.next page.bytes dataCapacity.toNat s₂ _ :=
        mapResult_map htiles hempty page.pos hpos (by omega) k s.next name true
      dsimp only
      generalize map k s₂ s.next name page.bytes dataCapacity.toNat true = result at hresult ⊢
      obtain ⟨result, t⟩ := result
      cases result with
      | error e => exact ⟨hcreated₂.closed (hresult.1.trans (frame_shmUnlink t name)), hresult.2⟩
      | ok region =>
        obtain ⟨hframe, htiles', headerAt, dataAt, hh, hd, hhb, hdb, ho, hfits, hapart⟩ := hresult
        refine ⟨hcreated₂.closed hframe, htiles', headerAt, dataAt, hh, hd, hhb, ?_, ?_, ?_, ?_, ?_⟩
        · rw [hdb]
          exact hpos
        · rw [hdb]
          exact hfits
        · rw [hhb, hdb]
          exact hapart
        · show (t.objects region.object).size = _
          rw [hframe.objects, ho, hhb, hdb, hsize]
          omega
        · show region.object < t.next
          rw [ho, hframe.next, hcreated₂.next]
          exact Nat.lt_succ_self _

theorem unlink_effect (region : MirroredShmRegion) (s : ShmSystem) : Frame s (region.unlink s).1 ∧
    (region.unlink s).1.space = s.space ∧ (region.unlink s).2.footprint = region.footprint ∧
    (region.Ok page (region.unlink s).1 → (region.unlink s).2.Ok page (region.unlink s).1) := by
  unfold unlink
  split
  · refine ⟨frame_shmUnlink s _, rfl, rfl, fun hok => hok.imp_right ?_⟩
    rintro ⟨headerAt, dataAt, hm⟩
    exact ⟨headerAt, dataAt, hm.header, hm.data, hm.headerBytes, hm.dataBytes_pos, hm.fits, hm.apart, hm.size, hm.known⟩
  · exact ⟨Frame.refl s, rfl, rfl, id⟩

/-- A region that is mapped covers exactly its footprint. -/
theorem Mapped.footprint_ne_none {headerAt dataAt : Nat} (h : region.Mapped page s headerAt dataAt) {a : Nat} :
    region.footprint.get a ≠ none ↔ region.Covers a := by
  have hcovers : region.Covers a ↔ headerAt ≤ a ∧ a < headerAt + region.headerBytes ∨
      dataAt ≤ a ∧ a < dataAt + 2 * region.dataBytes := by
    simp [Covers, h.header, h.data]
  rw [hcovers, footprint]
  simp only [h.header, h.data]
  by_cases hsecond : dataAt + region.dataBytes ≤ a ∧ a < dataAt + region.dataBytes + region.dataBytes
  · obtain ⟨d, rfl⟩ := Nat.exists_eq_add_of_le hsecond.1
    rw [Space.get_map_inside (by omega)]
    exact ⟨fun _ => .inr (by omega), fun _ => Option.some_ne_none _⟩
  · rw [Space.get_map_outside hsecond]
    by_cases hfirst : dataAt ≤ a ∧ a < dataAt + region.dataBytes
    · obtain ⟨d, rfl⟩ := Nat.exists_eq_add_of_le hfirst.1
      rw [Space.get_map_inside (by omega)]
      exact ⟨fun _ => .inr (by omega), fun _ => Option.some_ne_none _⟩
    · rw [Space.get_map_outside hfirst]
      by_cases hheader : headerAt ≤ a ∧ a < headerAt + region.headerBytes
      · obtain ⟨d, rfl⟩ := Nat.exists_eq_add_of_le hheader.1
        rw [Space.get_map_inside (by omega)]
        exact ⟨fun _ => .inl hheader, fun _ => Option.some_ne_none _⟩
      · rw [Space.get_map_outside hheader]
        exact ⟨fun hne => absurd Space.get_empty hne, by omega⟩

/-- A region of a variable can be released: nobody else has anything at its addresses. -/
theorem Ok.holds (h : region.Ok page s) (htiles : Tiles part s.space) (hpart : part i = region.footprint) :
    Holds part i region region.footprint s.space := by
  rcases h with hvacant | ⟨headerAt, dataAt, hmapped⟩
  · rw [hvacant.footprint] at hpart ⊢
    exact Holds.start htiles hpart hvacant.1 hvacant.2
  · refine ⟨?_, fun a => hmapped.footprint_ne_none.1, fun j a ha hj => ?_, fun _ => hmapped.fits⟩
    · rw [← hpart, Function.update_eq_self]
      exact htiles
    · by_contra hne
      refine hj (htiles.apart j i a hne ?_)
      rw [hpart]
      exact hmapped.footprint_ne_none.2 ha

theorem Ok.kept (h : region.Ok page s) (hkept : Kept s t) : region.Ok page t := by
  refine h.imp_right ?_
  rintro ⟨headerAt, dataAt, hm⟩
  refine ⟨headerAt, dataAt, hm.header, hm.data, hm.headerBytes, hm.dataBytes_pos, hm.fits, hm.apart, ?_, ?_⟩
  · rw [hkept.sizes _ hm.known (by rw [hm.size]; have := hm.dataBytes_pos; omega)]
    exact hm.size
  · exact Nat.lt_of_lt_of_le hm.known hkept.next

end MirroredShmRegion

/-! ### Every run of the process -/

namespace RegionProcess

variable {page : PageSize} {s t : RegionProcess}

/-- Who has what mapped: the variables their regions, and the process the rest. -/
def part (s : RegionProcess) : Option Nat → Space Backing
  | none => s.foreign
  | some x => ((s.region x).map MirroredShmRegion.footprint).getD Space.empty

/-- The address space is tiled, every region is mapped as a whole or vacant, and no descriptor is left open. -/
structure Inv (page : PageSize) (s : RegionProcess) : Prop where
  tiles : Tiles s.part s.sys.space
  region : ∀ x region, s.region x = some region → region.Ok page s.sys
  fds : s.sys.fds = []
  names : ∀ name object, s.sys.names name = some object → object < s.sys.next

theorem part_set (s : RegionProcess) (x : Nat) (region : Option MirroredShmRegion) :
    (s.set x region).part =
      Function.update s.part (some x) ((region.map MirroredShmRegion.footprint).getD Space.empty) := by
  funext owner
  cases owner with
  | none => rfl
  | some y =>
    simp only [part, set, Function.update_apply, Option.some.injEq]
    split <;> rfl

theorem part_foreign (s : RegionProcess) (sys : ShmSystem) (foreign : Space Backing) :
    part { s with sys := sys, foreign := foreign } = Function.update s.part none foreign := by
  funext owner
  cases owner <;> rfl

theorem Inv.init (h : s.Initial) : s.Inv page := by
  obtain ⟨hspace, hfds, hregion, hnames⟩ := h
  have hpart (x : Nat) : s.part (some x) = Space.empty := by simp [part, hregion]
  refine ⟨⟨?_, ?_, ?_⟩, fun x region hx => ?_, hfds, hnames⟩
  · rintro (_ | x) a b ha
    · rw [hspace]
      exact ha
    · rw [hpart] at ha
      cases ha
  · intro a b ha
    rw [hspace] at ha
    exact ⟨none, ha⟩
  · rintro (_ | x) (_ | y) a hi hj
    · rfl
    · exact absurd (by rw [hpart]; rfl) hj
    · exact absurd (by rw [hpart]; rfl) hi
    · exact absurd (by rw [hpart]; rfl) hi
  · rw [hregion] at hx
    cases hx

/-- The address space has changed for one variable. -/
theorem Inv.update (h : s.Inv page) {sys : ShmSystem} (hkept : MirroredShmRegion.Kept s.sys sys) {x : Nat}
    {region : Option MirroredShmRegion}
    (htiles : Tiles (Function.update s.part (some x) ((region.map MirroredShmRegion.footprint).getD Space.empty)) sys.space)
    (hok : ∀ r, region = some r → r.Ok page sys) : (set { s with sys := sys } x region).Inv page := by
  refine ⟨?_, fun y r hy => ?_, hkept.fds.trans h.fds, hkept.names h.names⟩
  · rw [part_set]
    exact htiles
  · simp only [set, Function.update_apply] at hy
    split at hy
    · exact hok r hy
    · exact (h.region y r hy).kept hkept

theorem Inv.quiet (h : s.Inv page) {sys : ShmSystem} (hkept : MirroredShmRegion.Kept s.sys sys)
    (htiles : Tiles s.part sys.space) : Inv page { s with sys := sys } :=
  ⟨htiles, fun y r hy => (h.region y r hy).kept hkept, hkept.fds.trans h.fds, hkept.names h.names⟩

/-- A region goes from one variable to another that has nothing mapped. -/
theorem Inv.move (h : s.Inv page) {x y : Nat} (hx : s.part (some x) = Space.empty)
    {region : MirroredShmRegion} (hy : s.region y = some region) :
    ((s.set y (some region.movedFrom)).set x (some region)).Inv page := by
  have hpart : ((s.set y (some region.movedFrom)).set x (some region)).part = s.part ∘ Equiv.swap (some x) (some y) := by
    funext owner
    rw [part_set, part_set, Function.comp_apply]
    by_cases hox : owner = some x
    · subst hox
      rw [Function.update_self, Equiv.swap_apply_left, part, hy]
    · by_cases hoy : owner = some y
      · subst hoy
        rw [Function.update_of_ne hox, Function.update_self, Equiv.swap_apply_right, hx]
        rfl
      · rw [Function.update_of_ne hox, Function.update_of_ne hoy, Equiv.swap_apply_of_ne_of_ne hox hoy]
  refine ⟨?_, fun z r hz => ?_, h.fds, h.names⟩
  · rw [hpart]
    exact h.tiles.relabel _
  · simp only [set, Function.update_apply] at hz
    split at hz
    · cases hz
      exact h.region y _ hy
    · split at hz
      · cases hz
        exact .inl ⟨rfl, rfl⟩
      · exact h.region z r hz

/-- A call on a variable that holds nothing. -/
theorem Inv.call (h : s.Inv page) {x : Nat} (hx : s.region x = none) {sys : ShmSystem}
    {result : Except ShmError (Option MirroredShmRegion)}
    (hresult : MirroredShmRegion.CallResult page s.part (some x) s.sys (result, sys)) :
    (match result with
      | .ok region => set { s with sys := sys } x region
      | .error _ => { s with sys := sys }).Inv page := by
  have hpart : s.part (some x) = Space.empty := by simp [part, hx]
  cases result with
  | error e => exact h.quiet hresult.1 hresult.2
  | ok region =>
    cases region with
    | none =>
      refine h.update hresult.1 ?_ nofun
      rw [Option.map_none, Option.getD_none, ← hpart, Function.update_eq_self]
      exact hresult.2
    | some region =>
      refine h.update hresult.1 hresult.2.1 ?_
      rintro _ ⟨⟩
      exact .inr hresult.2.2

/-- What `release` leaves. -/
theorem Inv.release (h : s.Inv page) {x : Nat} {region : MirroredShmRegion} (hx : s.region x = some region) :
    MirroredShmRegion.Kept s.sys (region.release s.sys).1 ∧
      Tiles (Function.update s.part (some x) Space.empty) (region.release s.sys).1.space := by
  have hpart : s.part (some x) = region.footprint := by simp [part, hx]
  exact ⟨(MirroredShmRegion.frame_release region s.sys).kept, ((h.region x region hx).holds h.tiles hpart).release⟩

theorem kept_poke (s : ShmSystem) (object offset : Nat) (byte : U8) : MirroredShmRegion.Kept s (s.poke object offset byte) := by
  refine ⟨fun o _ _ => ?_, Nat.le_refl _, rfl, fun hn => hn⟩
  simp only [ShmSystem.poke, Function.update_apply]
  split
  · subst_vars
    rfl
  · rfl

theorem kept_otherStep {s t : ShmSystem} {a : OtherAction} (h : otherStep s a = some t) :
    MirroredShmRegion.Kept s t ∧ t.space = s.space := by
  cases a with
  | create name =>
    obtain ⟨⟨object, u⟩, hu, rfl⟩ := Option.map_eq_some_iff.1 h
    obtain ⟨-, hcreated⟩ := MirroredShmRegion.created_shmCreate hu
    refine ⟨⟨fun o ho _ => ?_, ?_, rfl, fun hn name object hn' => ?_⟩, hcreated.space⟩
    · show (u.objects o).size = _
      rw [hcreated.objects o ho]
    · show s.next ≤ u.next
      rw [hcreated.next]
      exact Nat.le_succ _
    · show object < u.next
      rw [hcreated.next]
      rcases hcreated.names name object hn' with rfl | hold
      · exact Nat.lt_succ_self _
      · exact Nat.lt_succ_of_lt (hn name object hold)
  | resize object size =>
    obtain ⟨hzero, h⟩ := Option.ite_none_right_eq_some.1 h
    unfold ShmSystem.ftruncate at h
    split at h
    · cases h
      refine ⟨⟨fun o _ hne => ?_, Nat.le_refl _, rfl, fun hn => hn⟩, rfl⟩
      have hother : o ≠ object := by
        rintro rfl
        exact hne hzero
      simp only [Function.update_of_ne hother]
    · cases h
  | remove name =>
    cases h
    exact ⟨(MirroredShmRegion.frame_shmUnlink s name).kept, rfl⟩
  | poke object offset byte =>
    cases h
    exact ⟨kept_poke s object offset byte, rfl⟩

theorem Inv.step (h : s.Inv page) {a : RegionAction} (hs : s.step page a = some t) : t.Inv page := by
  cases a with
  | create x name dataCapacity k =>
    cases hx : s.region x with
    | some _ => simp [RegionProcess.step, hx] at hs
    | none =>
      have hpart : s.part (some x) = Space.empty := by simp [part, hx]
      have hresult : MirroredShmRegion.CallResult page s.part (some x) s.sys _ :=
        MirroredShmRegion.callResult_create h.tiles hpart k name dataCapacity
      simp only [RegionProcess.step, hx] at hs
      generalize MirroredShmRegion.create page k s.sys name dataCapacity = result at hs hresult
      obtain ⟨_ | region, sys⟩ := result <;> cases hs <;> exact h.call hx hresult
  | tryOpen x name k =>
    cases hx : s.region x with
    | some _ => simp [RegionProcess.step, hx] at hs
    | none =>
      have hpart : s.part (some x) = Space.empty := by simp [part, hx]
      have hresult : MirroredShmRegion.CallResult page s.part (some x) s.sys _ :=
        MirroredShmRegion.callResult_tryOpen h.tiles hpart h.names k name
      simp only [RegionProcess.step, hx] at hs
      generalize MirroredShmRegion.tryOpen page k s.sys name = result at hs hresult
      obtain ⟨_ | region, sys⟩ := result <;> cases hs <;> exact h.call hx hresult
  | moveConstruct x y =>
    cases hx : s.region x <;> cases hy : s.region y <;> simp only [RegionProcess.step, hx, hy, reduceCtorEq,
      Option.some.injEq] at hs
    subst hs
    exact h.move (by simp [part, hx]) hy
  | moveAssign x y =>
    cases hx : s.region x <;> cases hy : s.region y <;> simp only [RegionProcess.step, hx, hy, reduceCtorEq] at hs
    rename_i old region
    split at hs
    · cases hs
      exact h
    · rename_i hxy
      cases hs
      obtain ⟨hkept, htiles⟩ := h.release hx
      -- the old region is released first, then the new one comes in
      have hvacant : (set { s with sys := (old.release s.sys).1 } x none).Inv page := h.update hkept htiles nofun
      have hfrom : (set { s with sys := (old.release s.sys).1 } x none).region y = some region := by
        simp only [set, Function.update_apply]
        rw [if_neg (Ne.symm hxy)]
        exact hy
      have hmoved := hvacant.move (x := x) (by simp [part, set]) hfrom
      have hsame : (((set { s with sys := (old.release s.sys).1 } x none).set y (some region.movedFrom)).set x (some region)) =
          ((set { s with sys := (old.release s.sys).1 } y (some region.movedFrom)).set x (some region)) := by
        simp only [set, Function.update_comm hxy, Function.update_idem]
      rw [← hsame]
      exact hmoved
  | unlink x =>
    obtain ⟨region, hx, rfl⟩ := Option.map_eq_some_iff.1 hs
    have hpart : s.part (some x) = region.footprint := by simp [part, hx]
    obtain ⟨hframe, hspace, hfootprint, hok⟩ := @MirroredShmRegion.unlink_effect page region s.sys
    refine h.update hframe.kept ?_ ?_
    · rw [Option.map_some, Option.getD_some, hfootprint, ← hpart, Function.update_eq_self, hspace]
      exact h.tiles
    · rintro _ ⟨⟩
      exact hok ((h.region x region hx).kept hframe.kept)
  | destroy x =>
    obtain ⟨region, hx, rfl⟩ := Option.map_eq_some_iff.1 hs
    obtain ⟨hkept, htiles⟩ := h.release hx
    exact h.update hkept htiles nofun
  | store x offset byte =>
    cases hdata : (s.region x).bind MirroredShmRegion.data with
    | none => simp [RegionProcess.step, hdata] at hs
    | some data =>
      simp only [RegionProcess.step, hdata, Option.map_eq_some_iff] at hs
      obtain ⟨sys, hsys, rfl⟩ := hs
      unfold ShmSystem.store at hsys
      split at hsys
      · obtain ⟨-, hsys⟩ := Option.ite_none_right_eq_some.1 hsys
        cases hsys
        exact h.quiet (kept_poke ..) h.tiles
      · cases hsys
  | mapElsewhere base len =>
    obtain ⟨⟨-, -, -, hfree⟩, hs⟩ := Option.ite_none_right_eq_some.1 hs
    cases hs
    have hkept (space : Space Backing) : MirroredShmRegion.Kept s.sys { s.sys with space := space } :=
      ⟨fun _ _ _ => rfl, Nat.le_refl _, rfl, fun hn => hn⟩
    refine ⟨?_, fun x r hx => (h.region x r hx).kept (hkept _), h.fds, h.names⟩
    rw [part_foreign]
    exact h.tiles.map (h.tiles.exclusive_of_free hfree none)
  | unmapElsewhere base len =>
    obtain ⟨hforeign, hs⟩ := Option.ite_none_right_eq_some.1 hs
    cases hs
    have hkept (space : Space Backing) : MirroredShmRegion.Kept s.sys { s.sys with space := space } :=
      ⟨fun _ _ _ => rfl, Nat.le_refl _, rfl, fun hn => hn⟩
    refine ⟨?_, fun x r hx => (h.region x r hx).kept (hkept _), h.fds, h.names⟩
    rw [part_foreign]
    refine h.tiles.unmap fun owner a hle hlt hne => h.tiles.apart _ _ a hne ?_
    obtain ⟨d, rfl⟩ := Nat.exists_eq_add_of_le hle
    exact Option.isSome_iff_ne_none.1 (hforeign d (by omega))
  | other a =>
    obtain ⟨sys, hsys, rfl⟩ := Option.map_eq_some_iff.1 hs
    obtain ⟨hkept, hspace⟩ := kept_otherStep hsys
    exact h.quiet hkept (hspace ▸ h.tiles)

theorem Inv.of_reachable (h : (regionMachine page).Reachable s) : s.Inv page := by
  refine Machine.Reachable.invariant (I := RegionProcess.Inv page) (fun _ hs => Inv.init hs) ?_ h
  intro s a t hi hs
  exact hi.step hs

end RegionProcess

theorem four_le : 4 ≤ 2 ^ 62 := by decide

def RegionProcess.fresh : RegionProcess :=
  ⟨⟨fun _ => none, fun _ => ⟨0, fun _ => 0, by decide⟩, 0, Space.empty, []⟩, Space.empty, fun _ => none⟩

theorem RegionProcess.fresh_initial : fresh.Initial := ⟨rfl, rfl, fun _ => rfl, nofun⟩

namespace MirroredShmRegion

variable {page : PageSize} {region : MirroredShmRegion} {s : ShmSystem} {headerAt dataAt i : Nat}

end MirroredShmRegion

end ProducerConsumer
