import BeaconNode.BlockHeap
import BeaconNode.Runs
import BeaconNode.Words
import Mathlib.Logic.Function.Basic

namespace BeaconNode.SecureBuffers

open BlockHeap Runs Words

structure SecureBuffer where
  data : Option Nat := none
  size : Nat := 0
  deriving DecidableEq

/-- What the allocator answers: nothing, or a block with something in it. -/
abbrev Allocation := Option (Nat → UInt8)

def garbage (bytes : Nat → UInt8) (size : Nat) : Bytes := (List.range size).map bytes

/-- The pointer is overwritten before it is checked; true where bad_alloc is
thrown. -/
def alloc (h : Heap UInt8) (buffer : SecureBuffer) (size : Nat) : Allocation → Heap UInt8 × SecureBuffer × Bool
  | none => (h, { buffer with data := none }, true)
  | some bytes =>
      let (h, a) := h.allocate (garbage bytes size)
      (h, ⟨some a, size⟩, false)

def zeroAndFree (h : Heap UInt8) (a size : Nat) : Heap UInt8 := (h.fill a (List.replicate size 0)).release a

def wipeAndFree (h : Heap UInt8) (buffer : SecureBuffer) : Heap UInt8 :=
  match buffer.data with
  | none => h
  | some a => zeroAndFree h a buffer.size

def clear (h : Heap UInt8) (buffer : SecureBuffer) : Heap UInt8 × SecureBuffer := (wipeAndFree h buffer, {})

def resize (h : Heap UInt8) (buffer : SecureBuffer) (newSize : Nat) (allocation : Allocation) :
    Heap UInt8 × SecureBuffer :=
  if newSize = buffer.size ∨ newSize = 0 then
    if newSize = 0 then clear h buffer else (h, buffer)
  else
    match alloc h buffer newSize allocation with
    | (h, failed, true) => (h, failed)
    | (h, grown, false) =>
        match buffer.data with
        | none => (h, grown)
        | some old =>
            let h := match grown.data with
              | none => h
              | some new => h.copy new old (min buffer.size newSize)
            (zeroAndFree h old buffer.size, grown)

/-- The comparison of the build without libsodium; sodium_memcmp promises the
same answer. -/
def constantTimeEquals (h : Heap UInt8) (buffer other : SecureBuffer) : Bool :=
  if buffer.size ≠ other.size then false
  else match buffer.data, other.data with
    | some a, some b =>
        (List.range buffer.size).foldl (fun diff i =>
          diff ||| ((h.contents a).getD i 0 ^^^ (h.contents b).getD i 0)) 0 = (0 : UInt8)
    | data, otherData => data = otherData

structure World where
  heap : Heap UInt8 := {}
  objects : Nat → Option SecureBuffer := fun _ => none

def World.put (s : World) (x : Nat) (result : Heap UInt8 × SecureBuffer) : World :=
  ⟨result.1, Function.update s.objects x (some result.2)⟩

inductive Op
  | construct (x size : Nat) (allocation : Allocation)
  | moveConstruct (x source : Nat)
  | moveAssign (x source : Nat)
  | resize (x newSize : Nat) (allocation : Allocation)
  | clear (x : Nat)
  | write (x i : Nat) (value : UInt8)
  | destroy (x : Nat)

/-- One operation. What names a buffer that is not alive, or makes one that
is, is no operation. -/
def step (s : World) : Op → World
  | .construct x size allocation =>
      match s.objects x with
      | some _ => s
      | none =>
          if size > 0 then
            match alloc s.heap {} size allocation with
            | (_, _, true) => s
            | (heap, buffer, false) => s.put x (heap, buffer)
          else s.put x (s.heap, {})
  | .moveConstruct x source =>
      match s.objects x, s.objects source with
      | none, some other => ⟨s.heap, Function.update (Function.update s.objects x (some other)) source (some {})⟩
      | _, _ => s
  | .moveAssign x source =>
      match s.objects x, s.objects source with
      | some buffer, some other =>
          if x = source then s
          else ⟨wipeAndFree s.heap buffer, Function.update (Function.update s.objects x (some other)) source (some {})⟩
      | _, _ => s
  | .resize x newSize allocation =>
      match s.objects x with
      | none => s
      | some buffer => s.put x (SecureBuffers.resize s.heap buffer newSize allocation)
  | .clear x =>
      match s.objects x with
      | none => s
      | some buffer => s.put x (SecureBuffers.clear s.heap buffer)
  | .write x i value =>
      match s.objects x with
      | none => s
      | some buffer => match buffer.data with
          | none => { s with heap := { s.heap with faulted := true } }
          | some a => { s with heap := s.heap.set a i value }
  | .destroy x =>
      match s.objects x with
      | none => s
      | some buffer => ⟨wipeAndFree s.heap buffer, Function.update s.objects x none⟩

/-- The pointer of the buffer is null or leads to a block of its size. -/
def Holds (h : Heap UInt8) (buffer : SecureBuffer) : Prop :=
  ∀ a, buffer.data = some a → ∃ c, h.block a = some c ∧ c.length = buffer.size

/-- What a wipe does to the heap: it takes away the block behind the pointer,
having overwritten it, and no other. -/
structure Wipes (before after : Heap UInt8) (pointer : Option Nat) : Prop where
  faulted : after.faulted = before.faulted
  wiped : Wiped 0 before → Wiped 0 after
  block : ∀ b, after.block b = if pointer = some b then none else before.block b

variable {h : Heap UInt8} {buffer other : SecureBuffer} {a : Nat}

theorem Wipes.refl (h : Heap UInt8) : Wipes h h none := ⟨rfl, id, fun _ => rfl⟩

theorem zeroAndFree_wipes {c : Bytes} (hb : h.block a = some c) :
    Wipes h (zeroAndFree h a c.length) (some a) := by
  have hlength : (List.replicate c.length (0 : UInt8)).length = c.length := List.length_replicate
  have hzero : (h.fill a (List.replicate c.length 0)).block a = some (List.replicate c.length 0) := by
    rw [fill_block hb hlength.le, if_pos rfl, hlength, List.drop_length, List.append_nil]
  refine ⟨?_, fun hw => ?_, fun b => ?_⟩
  · rw [zeroAndFree, release_eq hzero, fill_eq hb hlength.le]
  · apply Wiped.release _ hzero fun v hv => List.eq_of_mem_replicate hv
    rw [fill_eq hb hlength.le]
    exact hw
  · rw [zeroAndFree, release_block hzero, fill_block hb hlength.le]
    by_cases hba : b = a
    · rw [if_pos hba, if_pos (congrArg some hba.symm)]
    · rw [if_neg hba, if_neg hba, if_neg fun he => hba (Option.some.inj he).symm]

theorem wipeAndFree_wipes (hh : Holds h buffer) : Wipes h (wipeAndFree h buffer) buffer.data := by
  cases hd : buffer.data with
  | none =>
      rw [wipeAndFree, hd]
      exact Wipes.refl h
  | some a =>
      obtain ⟨c, hb, hl⟩ := hh a hd
      rw [wipeAndFree, hd, ← hl]
      exact zeroAndFree_wipes hb

def contentsOf (h : Heap UInt8) (buffer : SecureBuffer) : Bytes :=
  match buffer.data with
  | none => []
  | some a => h.contents a

/-- A vector of the new size that begins with as much of the old one as there
is room for. -/
def resized (old : Bytes) (newSize : Nat) (bytes : Nat → UInt8) : Bytes :=
  old.take newSize ++ (garbage bytes newSize).drop old.length

theorem garbage_length (bytes : Nat → UInt8) (size : Nat) : (garbage bytes size).length = size := by
  simp [garbage]

theorem resized_length (old : Bytes) (newSize : Nat) (bytes : Nat → UInt8) :
    (resized old newSize bytes).length = newSize := by
  rw [resized, List.length_append, List.length_take, List.length_drop, garbage_length]
  omega

theorem resized_eq {old : Bytes} {size newSize : Nat} (hl : old.length = size) (bytes : Nat → UInt8) :
    old.take (min size newSize) ++ (garbage bytes newSize).drop (old.take (min size newSize)).length =
      resized old newSize bytes := by
  have htake : old.take (min size newSize) = old.take newSize := by
    rw [List.take_eq_take_iff]
    omega
  rw [resized, htake, List.length_take]
  rcases le_total old.length newSize with hle | hle
  · rw [min_eq_right hle]
  · rw [min_eq_left hle, List.drop_of_length_le (by rw [garbage_length]),
      List.drop_of_length_le (by rw [garbage_length]; exact hle)]

theorem resize_eq (h : Heap UInt8) {newSize : Nat} (hs : newSize ≠ buffer.size) (hz : newSize ≠ 0)
    (bytes : Nat → UInt8) :
    resize h buffer newSize (some bytes) = (match buffer.data with
      | none => (h.allocate (garbage bytes newSize)).1
      | some old => zeroAndFree ((h.allocate (garbage bytes newSize)).1.copy h.blocks.length old
          (min buffer.size newSize)) old buffer.size, ⟨some h.blocks.length, newSize⟩) := by
  rw [resize, if_neg (not_or.mpr ⟨hs, hz⟩)]
  cases buffer.data with
  | none | some old => rfl

/-- What a resize that gets its memory does to the heap: a new block, which
was not there before, holds the old contents, and the old block is gone. -/
structure Grows (before after : Heap UInt8) (pointer : Option Nat) (contents : Bytes) : Prop where
  faulted : after.faulted = before.faulted
  wiped : Wiped 0 before → Wiped 0 after
  block : ∀ b, after.block b = if b = before.blocks.length then some contents
    else if pointer = some b then none else before.block b

theorem resize_grows (hh : Holds h buffer) {newSize : Nat} (hs : newSize ≠ buffer.size) (hz : newSize ≠ 0)
    (bytes : Nat → UInt8) :
    ∃ heap, resize h buffer newSize (some bytes) = (heap, ⟨some h.blocks.length, newSize⟩) ∧
      Grows h heap buffer.data (resized (contentsOf h buffer) newSize bytes) := by
  refine ⟨_, resize_eq h hs hz bytes, ?_⟩
  have hallocated (b : Nat) := allocate_block h (garbage bytes newSize) b
  have hfaulted : (h.allocate (garbage bytes newSize)).1.faulted = h.faulted := rfl
  have hreleased : (h.allocate (garbage bytes newSize)).1.released = h.released := rfl
  generalize (h.allocate (garbage bytes newSize)).1 = grown at hallocated hfaulted hreleased ⊢
  have hkept : Wiped 0 h → Wiped 0 grown := by
    rw [Wiped, Wiped, hreleased]
    exact id
  cases hd : buffer.data with
  | none =>
      refine ⟨hfaulted, hkept, fun b => ?_⟩
      simp [hallocated, resized, contentsOf, hd]
  | some old =>
      obtain ⟨c, hb, hl⟩ := hh old hd
      have hold : ¬ old = h.blocks.length := (lt_of_block hb).ne
      have hcontents : grown.contents old = c := contents_of_block (by rw [hallocated, if_neg hold, hb])
      have hnew : grown.block h.blocks.length = some (garbage bytes newSize) := by rw [hallocated, if_pos rfl]
      have hfits : (c.take (min buffer.size newSize)).length ≤ (garbage bytes newSize).length := by
        rw [List.length_take, garbage_length]
        omega
      have hcopy : grown.copy h.blocks.length old (min buffer.size newSize) =
          grown.fill h.blocks.length (c.take (min buffer.size newSize)) := by
        rw [Heap.copy, hcontents, if_pos (by omega)]
      have hcopied (b : Nat) := fill_block hnew hfits b
      rw [resized_eq hl] at hcopied
      have hkeptOld : (grown.fill h.blocks.length (c.take (min buffer.size newSize))).block old = some c := by
        rw [hcopied, if_neg hold, hallocated, if_neg hold, hb]
      have hwipes := zeroAndFree_wipes hkeptOld
      rw [hl] at hwipes
      have hcontentsOf : contentsOf h buffer = c := by
        rw [contentsOf, hd]
        exact contents_of_block hb
      dsimp only
      rw [hcopy, hcontentsOf]
      refine ⟨?_, fun hw => hwipes.wiped ?_, fun b => ?_⟩
      · rw [hwipes.faulted, fill_eq hnew hfits, hfaulted]
      · rw [fill_eq hnew hfits]
        exact hkept hw
      · rw [hwipes.block, hcopied, hallocated]
        by_cases hbf : b = h.blocks.length
        · subst hbf
          simp [hold]
        · rw [if_neg hbf, if_neg hbf, if_neg hbf]

variable {s : World} {x y : Nat}

structure Owned (s : World) : Prop where
  sound : s.heap.faulted = false
  wiped : Wiped 0 s.heap
  holds : ∀ x buffer, s.objects x = some buffer → Holds s.heap buffer
  unshared : ∀ x y b c a, s.objects x = some b → s.objects y = some c → b.data = some a → c.data = some a → x = y

theorem put_objects (s : World) (x : Nat) (result : Heap UInt8 × SecureBuffer) (y : Nat) :
    (s.put x result).objects y = if y = x then some result.2 else s.objects y := by
  by_cases hy : y = x
  · subst hy
    simp [World.put]
  · simp [World.put, hy]

/-- The blocks of all other buffers are still there and are not this one's. -/
def LeavesOthers (s : World) (x : Nat) (result : Heap UInt8 × SecureBuffer) : Prop :=
  ∀ y other a, y ≠ x → s.objects y = some other → other.data = some a →
    result.1.block a = s.heap.block a ∧ result.2.data ≠ some a

theorem Owned.put (ho : Owned s) {result : Heap UInt8 × SecureBuffer} (hf : result.1.faulted = false)
    (hw : Wiped 0 result.1) (hnew : Holds result.1 result.2) (hkeep : LeavesOthers s x result) :
    Owned (s.put x result) where
  sound := hf
  wiped := hw
  holds y other hy := by
    rw [put_objects] at hy
    by_cases hyx : y = x
    · rw [if_pos hyx] at hy
      cases hy
      exact hnew
    · rw [if_neg hyx] at hy
      intro a ha
      obtain ⟨c, hc⟩ := ho.holds y other hy a ha
      exact ⟨c, (hkeep y other a hyx hy ha).1.trans hc.1, hc.2⟩
  unshared y z b c a hy hz hb hc := by
    rw [put_objects] at hy hz
    by_cases hyx : y = x
    · by_cases hzx : z = x
      · rw [hyx, hzx]
      · rw [if_pos hyx] at hy
        rw [if_neg hzx] at hz
        cases hy
        exact absurd hb (hkeep z c a hzx hz hc).2
    · rw [if_neg hyx] at hy
      by_cases hzx : z = x
      · rw [if_pos hzx] at hz
        cases hz
        exact absurd hc (hkeep y b a hyx hy hb).2
      · rw [if_neg hzx] at hz
        exact ho.unshared y z b c a hy hz hb hc

theorem Owned.ne_of_ne (ho : Owned s) (hx : s.objects x = some buffer) (hyx : y ≠ x) (hy : s.objects y = some other)
    (ha : other.data = some a) : buffer.data ≠ some a :=
  fun hb => hyx (ho.unshared y x other buffer a hy hx ha hb)

theorem leavesOthers_empty (s : World) (x : Nat) : LeavesOthers s x (s.heap, {}) :=
  fun _ _ _ _ _ _ => ⟨rfl, fun he => by cases he⟩

theorem leavesOthers_clear (ho : Owned s) (hx : s.objects x = some buffer) :
    LeavesOthers s x (SecureBuffers.clear s.heap buffer) := by
  intro y other a hyx hy ha
  refine ⟨?_, fun he => by cases he⟩
  rw [SecureBuffers.clear, (wipeAndFree_wipes (ho.holds x buffer hx)).block, if_neg (ho.ne_of_ne hx hyx hy ha)]

theorem Owned.fresh_ne (ho : Owned s) (hy : s.objects y = some other) (ha : other.data = some a) :
    a ≠ s.heap.blocks.length := by
  obtain ⟨c, hc, -⟩ := ho.holds y other hy a ha
  exact (lt_of_block hc).ne

theorem leavesOthers_construct (ho : Owned s) (x size : Nat) (bytes : Nat → UInt8) :
    LeavesOthers s x ((s.heap.allocate (garbage bytes size)).1, ⟨some s.heap.blocks.length, size⟩) := by
  intro y other a hyx hy ha
  have hfresh := ho.fresh_ne hy ha
  refine ⟨?_, fun heq => hfresh (Option.some.inj heq).symm⟩
  rw [allocate_block, if_neg hfresh]

theorem resize_zero (h : Heap UInt8) (buffer : SecureBuffer) (allocation : Allocation) :
    resize h buffer 0 allocation = clear h buffer := by
  rw [resize, if_pos (Or.inr rfl), if_pos rfl]

theorem resize_same (h : Heap UInt8) (buffer : SecureBuffer) (hz : buffer.size ≠ 0) (allocation : Allocation) :
    resize h buffer buffer.size allocation = (h, buffer) := by
  rw [resize, if_pos (Or.inl rfl), if_neg hz]

theorem resize_failed (h : Heap UInt8) {newSize : Nat} (hs : newSize ≠ buffer.size) (hz : newSize ≠ 0) :
    resize h buffer newSize none = (h, { buffer with data := none }) := by
  rw [resize, if_neg (not_or.mpr ⟨hs, hz⟩)]
  rfl

theorem leavesOthers_resize (ho : Owned s) (hx : s.objects x = some buffer) (newSize : Nat) (allocation : Allocation) :
    LeavesOthers s x (SecureBuffers.resize s.heap buffer newSize allocation) := by
  by_cases hz : newSize = 0
  · rw [hz, resize_zero]
    exact leavesOthers_clear ho hx
  by_cases hs : newSize = buffer.size
  · rw [hs, resize_same _ _ (hs ▸ hz)]
    exact fun y other a hyx hy ha => ⟨rfl, ho.ne_of_ne hx hyx hy ha⟩
  cases allocation with
  | none =>
      rw [resize_failed _ hs hz]
      exact fun y other a _ _ _ => ⟨rfl, fun he => by cases he⟩
  | some bytes =>
      obtain ⟨heap, he, hgrows⟩ := resize_grows (ho.holds x buffer hx) hs hz bytes
      rw [he]
      intro y other a hyx hy ha
      have hfresh := ho.fresh_ne hy ha
      refine ⟨?_, fun heq => hfresh (Option.some.inj heq).symm⟩
      rw [hgrows.block, if_neg hfresh, if_neg (ho.ne_of_ne hx hyx hy ha)]

theorem holds_empty (h : Heap UInt8) : Holds h {} := fun a ha => by cases ha

theorem owned_clear (ho : Owned s) (hx : s.objects x = some buffer) :
    Owned (s.put x (SecureBuffers.clear s.heap buffer)) := by
  have hwipes := wipeAndFree_wipes (ho.holds x buffer hx)
  apply ho.put
  · rw [SecureBuffers.clear, hwipes.faulted, ho.sound]
  · exact hwipes.wiped ho.wiped
  · exact holds_empty _
  · exact leavesOthers_clear ho hx

theorem owned_resize (ho : Owned s) (hx : s.objects x = some buffer) (newSize : Nat) (allocation : Allocation) :
    Owned (s.put x (SecureBuffers.resize s.heap buffer newSize allocation)) := by
  have hothers := leavesOthers_resize ho hx newSize allocation
  by_cases hz : newSize = 0
  · rw [hz, resize_zero]
    exact owned_clear ho hx
  by_cases hs : newSize = buffer.size
  · rw [hs, resize_same _ _ (hs ▸ hz)] at hothers ⊢
    exact ho.put ho.sound ho.wiped (ho.holds x buffer hx) hothers
  cases allocation with
  | none =>
      rw [resize_failed _ hs hz] at hothers ⊢
      exact ho.put ho.sound ho.wiped (fun a ha => by cases ha) hothers
  | some bytes =>
      obtain ⟨heap, he, hgrows⟩ := resize_grows (ho.holds x buffer hx) hs hz bytes
      rw [he] at hothers ⊢
      apply ho.put _ (hgrows.wiped ho.wiped) _ hothers
      · rw [hgrows.faulted, ho.sound]
      · intro a ha
        obtain rfl := Option.some.inj ha
        exact ⟨_, by rw [hgrows.block, if_pos rfl], resized_length _ _ _⟩

theorem owned_construct (ho : Owned s) (x size : Nat) (bytes : Nat → UInt8) :
    Owned (s.put x ((s.heap.allocate (garbage bytes size)).1, ⟨some s.heap.blocks.length, size⟩)) := by
  refine ho.put ho.sound ho.wiped (fun a ha => ?_) (leavesOthers_construct ho x size bytes)
  obtain rfl := Option.some.inj ha
  exact ⟨_, by rw [allocate_block, if_pos rfl], garbage_length _ _⟩

theorem Owned.forget (ho : Owned s) (x : Nat) : Owned ⟨s.heap, Function.update s.objects x none⟩ := by
  have hsub : ∀ y buffer, Function.update s.objects x none y = some buffer → s.objects y = some buffer := by
    intro y buffer hy
    by_cases hyx : y = x
    · subst hyx
      simp at hy
    · rwa [Function.update_of_ne hyx] at hy
  exact ⟨ho.sound, ho.wiped, fun y buffer hy => ho.holds y buffer (hsub y buffer hy),
    fun y z b c a hy hz hb hc => ho.unshared y z b c a (hsub y b hy) (hsub z c hz) hb hc⟩

theorem Owned.move (ho : Owned s) (hy : s.objects y = some other) :
    Owned ⟨s.heap, Function.update (Function.update s.objects x (some other)) y (some {})⟩ := by
  -- who had the block that a buffer has now
  have hfrom : ∀ z buffer a, Function.update (Function.update s.objects x (some other)) y (some {}) z = some buffer →
      buffer.data = some a → s.objects (if z = x then y else z) = some buffer ∧ z ≠ y := by
    intro z buffer a hz ha
    by_cases hzy : z = y
    · subst hzy
      rw [Function.update_self] at hz
      cases hz
      cases ha
    · rw [Function.update_of_ne hzy] at hz
      refine ⟨?_, hzy⟩
      by_cases hzx : z = x
      · subst hzx
        rw [Function.update_self] at hz
        rw [if_pos rfl, hy, hz]
      · rwa [Function.update_of_ne hzx, ← if_neg (c := z = x) (t := y) (e := z) hzx] at hz
  refine ⟨ho.sound, ho.wiped, fun z buffer hz a ha => ?_, fun z w b c a hz hw hb hc => ?_⟩
  · exact ho.holds _ buffer (hfrom z buffer a hz ha).1 a ha
  · obtain ⟨hz', hzy⟩ := hfrom z b a hz hb
    obtain ⟨hw', hwy⟩ := hfrom w c a hw hc
    have heq := ho.unshared _ _ b c a hz' hw' hb hc
    split at heq
    next hzx =>
      split at heq
      next hwx => rw [hzx, hwx]
      next hwx => exact absurd heq.symm hwy
    next hzx =>
      split at heq
      next hwx => exact absurd heq hzy
      next hwx => exact heq

/-- Only bytes that the buffer has are written. -/
def InRange (s : World) : Op → Prop
  | .write x i _ => ∀ buffer, s.objects x = some buffer → buffer.data ≠ none ∧ i < buffer.size
  | .construct _ _ _ | .moveConstruct _ _ | .moveAssign _ _ | .resize _ _ _ | .clear _ | .destroy _ => True

theorem step_owned (ho : Owned s) {op : Op} (hr : InRange s op) : Owned (step s op) := by
  cases op with
  | construct x size allocation =>
      simp only [step]
      split
      · exact ho
      · split
        · cases allocation with
          | none => exact ho
          | some bytes => exact owned_construct ho x size bytes
        · exact ho.put ho.sound ho.wiped (holds_empty _) (leavesOthers_empty s x)
  | moveConstruct x source =>
      simp only [step]
      split
      next other _ hsource => exact ho.move hsource
      next => exact ho
  | moveAssign x source =>
      simp only [step]
      split
      next buffer other hx hsource =>
        split
        next => exact ho
        next hne =>
          have hcleared := owned_clear ho hx
          have hother : (s.put x (SecureBuffers.clear s.heap buffer)).objects source = some other := by
            rw [put_objects, if_neg (Ne.symm hne), hsource]
          have hmoved := hcleared.move (x := x) hother
          simpa [World.put, SecureBuffers.clear] using hmoved
      next => exact ho
  | resize x newSize allocation =>
      simp only [step]
      split
      next => exact ho
      next buffer hx => exact owned_resize ho hx newSize allocation
  | clear x =>
      simp only [step]
      split
      next => exact ho
      next buffer hx => exact owned_clear ho hx
  | write x i value =>
      simp only [step]
      split
      next => exact ho
      next buffer hx =>
        obtain ⟨hdata, hi⟩ := hr buffer hx
        split
        next hnone => exact absurd hnone hdata
        next a ha =>
          obtain ⟨c, hc, hl⟩ := ho.holds x buffer hx a ha
          rw [← hl] at hi
          have hblock := set_block hc hi value
          rw [set_eq hc hi] at hblock ⊢
          refine ⟨ho.sound, ho.wiped, fun y other hy b hb => ?_, ho.unshared⟩
          rw [hblock]
          split
          next hba =>
            subst hba
            obtain ⟨d, hd, hdl⟩ := ho.holds y other hy b hb
            rw [hc] at hd
            cases hd
            exact ⟨_, rfl, by rw [List.length_set, hdl]⟩
          next => exact ho.holds y other hy b hb
  | destroy x =>
      simp only [step]
      split
      next => exact ho
      next buffer hx =>
        have hforgotten := (owned_clear ho hx).forget x
        simpa [World.put, SecureBuffers.clear] using hforgotten

def Kept (s : World) : Prop :=
  ∀ a c, s.heap.block a = some c → ∃ x buffer, s.objects x = some buffer ∧ buffer.data = some a

/-- The allocator refuses a resize of a buffer that has a block: the pointer
to the block is gone by the time bad_alloc is thrown. -/
def Loses (s : World) : Op → Prop
  | .resize x newSize none =>
      ∃ buffer, s.objects x = some buffer ∧ buffer.data ≠ none ∧ newSize ≠ 0 ∧ newSize ≠ buffer.size
  | .resize _ _ (some _) | .construct _ _ _ | .moveConstruct _ _ | .moveAssign _ _ | .clear _ | .write _ _ _
  | .destroy _ => False

theorem Kept.put (hk : Kept s) {heap : Heap UInt8}
    (hb : ∀ a c, heap.block a = some c → buffer.data = some a ∨
      ((∃ d, s.heap.block a = some d) ∧ ∀ old, s.objects x = some old → old.data ≠ some a)) :
    Kept (s.put x (heap, buffer)) := by
  intro a c hc
  rcases hb a c hc with hnew | ⟨⟨d, hd⟩, hother⟩
  · exact ⟨x, buffer, by rw [put_objects, if_pos rfl], hnew⟩
  · obtain ⟨y, owner, hy, ha⟩ := hk a d hd
    have hyx : y ≠ x := by
      rintro rfl
      exact hother owner hy ha
    exact ⟨y, owner, by rw [put_objects, if_neg hyx, hy], ha⟩

theorem kept_clear (ho : Owned s) (hk : Kept s) (hx : s.objects x = some buffer) :
    Kept (s.put x (SecureBuffers.clear s.heap buffer)) := by
  have hwipes := wipeAndFree_wipes (ho.holds x buffer hx)
  apply hk.put
  intro a c hc
  rw [hwipes.block] at hc
  split at hc
  · cases hc
  next hne =>
    refine Or.inr ⟨⟨c, hc⟩, fun old hold => ?_⟩
    rw [hx] at hold
    cases hold
    exact hne

theorem Kept.move (hk : Kept s) (hxy : x ≠ y) (hx : ∀ buffer, s.objects x = some buffer → buffer.data = none)
    (hy : s.objects y = some other) :
    Kept ⟨s.heap, Function.update (Function.update s.objects x (some other)) y (some {})⟩ := by
  intro a c hc
  obtain ⟨z, owner, hz, ha⟩ := hk a c hc
  by_cases hzy : z = y
  · subst hzy
    rw [hy] at hz
    cases hz
    exact ⟨x, other, by simp [hxy], ha⟩
  · have hzx : z ≠ x := by
      rintro rfl
      rw [hx owner hz] at ha
      cases ha
    exact ⟨z, owner, by simp [hzy, hzx, hz], ha⟩

theorem Kept.forget (hk : Kept s) (hx : ∀ buffer, s.objects x = some buffer → buffer.data = none) :
    Kept ⟨s.heap, Function.update s.objects x none⟩ := by
  intro a c hc
  obtain ⟨z, owner, hz, ha⟩ := hk a c hc
  have hzx : z ≠ x := by
    rintro rfl
    rw [hx owner hz] at ha
    cases ha
  exact ⟨z, owner, by simp [hzx, hz], ha⟩

theorem put_clear_data (s : World) (x : Nat) (buffer : SecureBuffer) :
    ∀ cleared, (s.put x (SecureBuffers.clear s.heap buffer)).objects x = some cleared → cleared.data = none := by
  intro cleared hc
  rw [put_objects, if_pos rfl] at hc
  cases hc
  rfl

theorem kept_construct (hk : Kept s) (hx : ∀ a old, s.objects x = some old → old.data ≠ some a) {size : Nat}
    (bytes : Nat → UInt8) :
    Kept (s.put x ((s.heap.allocate (garbage bytes size)).1, ⟨some s.heap.blocks.length, size⟩)) := by
  apply hk.put
  intro a c hc
  rw [allocate_block] at hc
  split at hc
  next hnew => exact Or.inl (congrArg some hnew.symm)
  next => exact Or.inr ⟨⟨c, hc⟩, hx a⟩

theorem not_kept_of_loses (ho : Owned s) {op : Op} (hl : Loses s op) : ¬ Kept (step s op) := by
  match op, hl with
  | .resize x newSize none, ⟨buffer, hx, hdata, hz, hs⟩ =>
      obtain ⟨a, ha⟩ := Option.ne_none_iff_exists'.mp hdata
      obtain ⟨c, hc, -⟩ := ho.holds x buffer hx a ha
      intro hk
      simp only [step, hx, resize_failed _ hs hz] at hk
      obtain ⟨y, owner, hy, howner⟩ := hk a c hc
      rw [put_objects] at hy
      split at hy
      · cases hy
        cases howner
      next hyx => exact hyx (ho.unshared y x owner buffer a hy hx howner ha)

theorem kept_resize (ho : Owned s) (hk : Kept s) (hx : s.objects x = some buffer) {newSize : Nat}
    {allocation : Allocation} (hl : ¬ Loses s (.resize x newSize allocation)) :
    Kept (s.put x (SecureBuffers.resize s.heap buffer newSize allocation)) := by
  by_cases hz : newSize = 0
  · rw [hz, resize_zero]
    exact kept_clear ho hk hx
  -- a block is the buffer's own or has another owner
  have hown (a : Nat) : buffer.data = some a ∨ ∀ old, s.objects x = some old → old.data ≠ some a := by
    by_cases ha : buffer.data = some a
    · exact Or.inl ha
    · refine Or.inr fun old hold => ?_
      rw [hx] at hold
      cases hold
      exact ha
  by_cases hs : newSize = buffer.size
  · rw [hs, resize_same _ _ (hs ▸ hz)]
    exact hk.put fun a c hc => (hown a).imp_right fun h => ⟨⟨c, hc⟩, h⟩
  cases allocation with
  | none =>
      have hnone : buffer.data = none := by
        by_contra hdata
        exact hl ⟨buffer, hx, hdata, hz, hs⟩
      rw [resize_failed _ hs hz]
      apply hk.put
      intro a c hc
      refine Or.inr ⟨⟨c, hc⟩, (hown a).resolve_left fun ha => ?_⟩
      rw [hnone] at ha
      cases ha
  | some bytes =>
      obtain ⟨heap, he, hgrows⟩ := resize_grows (ho.holds x buffer hx) hs hz bytes
      rw [he]
      apply hk.put
      intro a c hc
      rw [hgrows.block] at hc
      split at hc
      next hnew => exact Or.inl (congrArg some hnew.symm)
      next =>
        split at hc
        next => cases hc
        next hne => exact Or.inr ⟨⟨c, hc⟩, (hown a).resolve_left hne⟩

theorem step_kept_iff (ho : Owned s) (hk : Kept s) {op : Op} (hr : InRange s op) :
    Kept (step s op) ↔ ¬ Loses s op := by
  refine ⟨fun h hl => not_kept_of_loses ho hl h, fun hl => ?_⟩
  have hempty {x : Nat} (hx : s.objects x = none) : ∀ buffer, s.objects x = some buffer → buffer.data = none := by
    intro buffer hb
    rw [hx] at hb
    cases hb
  cases op with
  | construct x size allocation =>
      simp only [step]
      split
      · exact hk
      next hx =>
        have hfree : ∀ a old, s.objects x = some old → old.data ≠ some a := by
          intro a old hold
          rw [hx] at hold
          cases hold
        split
        · cases allocation with
          | none => exact hk
          | some bytes => exact kept_construct hk hfree bytes
        · exact hk.put fun a c hc => Or.inr ⟨⟨c, hc⟩, hfree a⟩
  | moveConstruct x source =>
      simp only [step]
      split
      next other hx hsource =>
        apply hk.move _ (hempty hx) hsource
        rintro rfl
        rw [hx] at hsource
        cases hsource
      next => exact hk
  | moveAssign x source =>
      simp only [step]
      split
      next buffer other hx hsource =>
        split
        next => exact hk
        next hne =>
          have hother : (s.put x (SecureBuffers.clear s.heap buffer)).objects source = some other := by
            rw [put_objects, if_neg (Ne.symm hne), hsource]
          have hmoved := (kept_clear ho hk hx).move hne (put_clear_data s x buffer) hother
          simpa [World.put, SecureBuffers.clear] using hmoved
      next => exact hk
  | resize x newSize allocation =>
      simp only [step]
      split
      next => exact hk
      next buffer hx => exact kept_resize ho hk hx hl
  | clear x =>
      simp only [step]
      split
      next => exact hk
      next buffer hx => exact kept_clear ho hk hx
  | write x i value =>
      simp only [step]
      split
      next => exact hk
      next buffer hx =>
        obtain ⟨hdata, hi⟩ := hr buffer hx
        split
        next hnone => exact absurd hnone hdata
        next a ha =>
          obtain ⟨c, hc, hl⟩ := ho.holds x buffer hx a ha
          rw [← hl] at hi
          have hblock := set_block hc hi value
          intro b d hd
          rw [hblock] at hd
          split at hd
          next hba => exact ⟨x, buffer, hx, hba ▸ ha⟩
          next => exact hk b d hd
  | destroy x =>
      simp only [step]
      split
      next => exact hk
      next buffer hx =>
        have hforgotten := (kept_clear ho hk hx).forget (put_clear_data s x buffer)
        simpa [World.put, SecureBuffers.clear] using hforgotten

theorem owned_empty : Owned {} := by
  refine ⟨rfl, fun block hm => absurd hm List.not_mem_nil, fun x buffer hx => ?_, fun x y b c a hx => ?_⟩
  · cases hx
  · cases hx

/-- Whatever the allocator does, no block is used after it was given back or
beyond its end, no two buffers have the same block, and no block is given back
with anything in it but zeros. A block is left behind exactly when the
allocator refuses to resize a buffer that has one. -/
theorem secure_buffers_safe (ops : List Op) (hr : Along step InRange {} ops) :
    Always step Owned {} ops ∧ (Always step Kept {} ops ↔ Along step (fun s op => ¬ Loses s op) {} ops) := by
  have hkept : Kept {} := fun a c hc => by cases hc
  refine ⟨always_of_step owned_empty (fun s op ho hr => step_owned ho hr) hr, ?_⟩
  exact always_iff_along owned_empty hkept (fun s op ho hr => step_owned ho hr)
    (fun s op ho hr hk => step_kept_iff ho hk hr) hr

/-- A buffer of two bytes, of which one is written, and which cannot be given
four. -/
def refusedResize : List Op :=
  [.construct 0 2 (some fun _ => 9), .write 0 1 7, .resize 0 4 none, .destroy 0]

theorem refusedResize_inRange : Along step InRange {} refusedResize := by
  refine along_cons.mpr ⟨trivial, along_cons.mpr ⟨fun buffer hb => ?_, along_cons.mpr ⟨trivial,
    along_cons.mpr ⟨trivial, along_nil⟩⟩⟩⟩
  have hobject : (step {} (.construct 0 2 (some fun _ => 9))).objects 0 = some ⟨some 0, 2⟩ := rfl
  rw [hobject] at hb
  cases hb
  exact ⟨by decide, by decide⟩

theorem secure_buffers_safe_refused :
    Always step Owned {} refusedResize ∧
      (Always step Kept {} refusedResize ↔ Along step (fun s op => ¬ Loses s op) {} refusedResize) :=
  secure_buffers_safe refusedResize refusedResize_inRange

/-- What was written is still there when no buffer is left. -/
example : (refusedResize.foldl step {}).heap.block 0 = some [9, 7] := by decide

end BeaconNode.SecureBuffers
