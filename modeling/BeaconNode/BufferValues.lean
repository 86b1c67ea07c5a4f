import BeaconNode.SecureBuffers
import Mathlib.Data.List.GetD

namespace BeaconNode.BufferValues

open BlockHeap Runs Words SecureBuffers

/-- Buffers as their users see them: some bytes, or nothing of that name. -/
abbrev Values := Nat → Option Bytes

/-- One operation on values. A refused allocation changes nothing. -/
def valueStep (v : Values) : Op → Values
  | .construct x size allocation =>
      match v x with
      | some _ => v
      | none =>
          if size > 0 then
            match allocation with
            | none => v
            | some bytes => Function.update v x (some (garbage bytes size))
          else Function.update v x (some [])
  | .moveConstruct x source =>
      match v x, v source with
      | none, some value => Function.update (Function.update v x (some value)) source (some [])
      | _, _ => v
  | .moveAssign x source =>
      match v x, v source with
      | some _, some value =>
          if x = source then v else Function.update (Function.update v x (some value)) source (some [])
      | _, _ => v
  | .resize x newSize allocation =>
      match v x with
      | none => v
      | some value =>
          if newSize = 0 then Function.update v x (some [])
          else if newSize = value.length then v
          else match allocation with
            | none => v
            | some bytes => Function.update v x (some (resized value newSize bytes))
  | .clear x =>
      match v x with
      | none => v
      | some _ => Function.update v x (some [])
  | .write x i byte =>
      match v x with
      | none => v
      | some value => Function.update v x (some (value.set i byte))
  | .destroy x =>
      match v x with
      | none => v
      | some _ => Function.update v x none

def valuesOf (s : World) : Values := fun x => (s.objects x).map (contentsOf s.heap)

def Tidy (s : World) : Prop := ∀ x buffer, s.objects x = some buffer → (buffer.data = none ↔ buffer.size = 0)

variable {s : World} {x y : Nat} {buffer other : SecureBuffer} {h : Heap UInt8}

theorem contentsOf_length (hh : Holds h buffer) (ht : buffer.data = none ↔ buffer.size = 0) :
    (contentsOf h buffer).length = buffer.size := by
  cases hd : buffer.data with
  | none => rw [contentsOf, hd, ht.mp hd, List.length_nil]
  | some a =>
      obtain ⟨c, hc, hl⟩ := hh a hd
      rw [contentsOf, hd, ← hl]
      exact congrArg List.length (contents_of_block hc)

theorem valuesOf_put {result : Heap UInt8 × SecureBuffer} (hkeep : LeavesOthers s x result) :
    valuesOf (s.put x result) = Function.update (valuesOf s) x (some (contentsOf result.1 result.2)) := by
  funext y
  by_cases hyx : y = x
  · subst hyx
    rw [Function.update_self, valuesOf, put_objects, if_pos rfl]
    rfl
  · rw [Function.update_of_ne hyx, valuesOf, valuesOf, put_objects, if_neg hyx]
    cases hy : s.objects y with
    | none => rfl
    | some other =>
        rw [Option.map_some, Option.map_some, Option.some.injEq]
        cases ha : other.data with
        | none => rw [contentsOf, contentsOf, ha]
        | some a =>
            rw [contentsOf, contentsOf, ha]
            change (result.1.block a).getD [] = (s.heap.block a).getD []
            rw [(hkeep y other a hyx hy ha).1]

theorem Tidy.put (ht : Tidy s) {result : Heap UInt8 × SecureBuffer} (hr : result.2.data = none ↔ result.2.size = 0) :
    Tidy (s.put x result) := by
  intro y other hy
  rw [put_objects] at hy
  split at hy
  · cases hy
    exact hr
  · exact ht y other hy

/-- The two worlds agree and the next one is tidy. -/
structure Refines (s : World) (v : Values) : Prop where
  values : valuesOf s = v
  tidy : Tidy s

theorem refines_put (ht : Tidy s) {result : Heap UInt8 × SecureBuffer} {value : Bytes}
    (hkeep : LeavesOthers s x result) (hr : result.2.data = none ↔ result.2.size = 0)
    (hv : contentsOf result.1 result.2 = value) :
    Refines (s.put x result) (Function.update (valuesOf s) x (some value)) :=
  ⟨by rw [valuesOf_put hkeep, hv], ht.put hr⟩

theorem valuesOf_some (hx : s.objects x = some buffer) : valuesOf s x = some (contentsOf s.heap buffer) := by
  rw [valuesOf, hx]
  rfl

theorem valuesOf_none (hx : s.objects x = none) : valuesOf s x = none := by
  rw [valuesOf, hx]
  rfl

theorem put_same (hx : s.objects x = some buffer) : s.put x (s.heap, buffer) = s := by
  rw [World.put, ← hx, Function.update_eq_self]

theorem Refines.same (ht : Tidy s) : Refines s (valuesOf s) := ⟨rfl, ht⟩

theorem valuesOf_move (s : World) (x y : Nat) (other : SecureBuffer) :
    valuesOf ⟨s.heap, Function.update (Function.update s.objects x (some other)) y (some {})⟩ =
      Function.update (Function.update (valuesOf s) x (some (contentsOf s.heap other))) y (some []) := by
  funext z
  by_cases hzy : z = y
  · subst hzy
    simp [valuesOf, contentsOf]
  · by_cases hzx : z = x
    · subst hzx
      simp [valuesOf, hzy]
    · simp [valuesOf, hzy, hzx]

theorem tidy_move (ht : Tidy s) (hy : s.objects y = some other) :
    Tidy ⟨s.heap, Function.update (Function.update s.objects x (some other)) y (some {})⟩ := by
  intro z buffer hz
  dsimp only at hz
  by_cases hzy : z = y
  · subst hzy
    rw [Function.update_self] at hz
    cases hz
    simp
  · rw [Function.update_of_ne hzy] at hz
    by_cases hzx : z = x
    · subst hzx
      rw [Function.update_self] at hz
      cases hz
      exact ht y other hy
    · rw [Function.update_of_ne hzx] at hz
      exact ht z buffer hz

theorem refines_move (ht : Tidy s) (hy : s.objects y = some other) :
    Refines ⟨s.heap, Function.update (Function.update s.objects x (some other)) y (some {})⟩
      (Function.update (Function.update (valuesOf s) x (some (contentsOf s.heap other))) y (some [])) :=
  ⟨valuesOf_move s x y other, tidy_move ht hy⟩

theorem refines_clear (ho : Owned s) (ht : Tidy s) (hx : s.objects x = some buffer) :
    Refines (s.put x (SecureBuffers.clear s.heap buffer)) (Function.update (valuesOf s) x (some [])) :=
  refines_put ht (leavesOthers_clear ho hx) (by simp [SecureBuffers.clear]) rfl

theorem valuesOf_forget (s : World) (x : Nat) :
    valuesOf ⟨s.heap, Function.update s.objects x none⟩ = Function.update (valuesOf s) x none := by
  funext z
  by_cases hzx : z = x
  · subst hzx
    simp [valuesOf]
  · simp [valuesOf, hzx]

theorem tidy_forget (ht : Tidy s) (x : Nat) : Tidy ⟨s.heap, Function.update s.objects x none⟩ := by
  intro z buffer hz
  dsimp only at hz
  by_cases hzx : z = x
  · subst hzx
    rw [Function.update_self] at hz
    cases hz
  · rw [Function.update_of_ne hzx] at hz
    exact ht z buffer hz

theorem refines_resize (ho : Owned s) (ht : Tidy s) (hx : s.objects x = some buffer) {newSize : Nat}
    {allocation : Allocation} (hl : ¬ Loses s (.resize x newSize allocation)) :
    Refines (s.put x (SecureBuffers.resize s.heap buffer newSize allocation))
      (valueStep (valuesOf s) (.resize x newSize allocation)) := by
  have hlength := contentsOf_length (ho.holds x buffer hx) (ht x buffer hx)
  simp only [valueStep, valuesOf_some hx, hlength]
  by_cases hz : newSize = 0
  · rw [if_pos hz, hz, resize_zero]
    exact refines_clear ho ht hx
  rw [if_neg hz]
  by_cases hs : newSize = buffer.size
  · rw [if_pos hs, hs, resize_same _ _ (hs ▸ hz), put_same hx]
    exact Refines.same ht
  rw [if_neg hs]
  have hothers := leavesOthers_resize ho hx newSize allocation
  cases allocation with
  | none =>
      have hnone : buffer.data = none := by
        by_contra hdata
        exact hl ⟨buffer, hx, hdata, hz, hs⟩
      have hsame : ({ buffer with data := none } : SecureBuffer) = buffer := by rw [← hnone]
      rw [resize_failed _ hs hz, hsame, put_same hx]
      exact Refines.same ht
  | some bytes =>
      obtain ⟨heap, he, hgrows⟩ := resize_grows (ho.holds x buffer hx) hs hz bytes
      rw [he] at hothers ⊢
      apply refines_put ht hothers
      · simp [hz]
      · exact contents_of_block (by rw [hgrows.block, if_pos rfl])

theorem refines_write (ho : Owned s) (ht : Tidy s) (hx : s.objects x = some buffer) {i a : Nat} (value : UInt8)
    (ha : buffer.data = some a) (hi : i < buffer.size) :
    Refines { s with heap := s.heap.set a i value }
      (Function.update (valuesOf s) x (some ((contentsOf s.heap buffer).set i value))) := by
  obtain ⟨c, hc, hl⟩ := ho.holds x buffer hx a ha
  have hblock := set_block hc (hl ▸ hi) value
  have hput : ({ s with heap := s.heap.set a i value } : World) = s.put x (s.heap.set a i value, buffer) := by
    rw [World.put, ← hx, Function.update_eq_self]
  have hcontents : contentsOf s.heap buffer = c := by
    rw [contentsOf, ha]
    exact contents_of_block hc
  rw [hput]
  apply refines_put ht
  · intro y other b hyx hy hb
    have hne := ho.ne_of_ne hx hyx hy hb
    refine ⟨?_, hne⟩
    rw [hblock, if_neg]
    rintro rfl
    exact hne ha
  · exact ht x buffer hx
  · rw [hcontents, contentsOf, ha]
    exact contents_of_block (by rw [hblock, if_pos rfl])

theorem step_refines (ho : Owned s) (ht : Tidy s) {op : Op} (hr : InRange s op) (hl : ¬ Loses s op) :
    Refines (step s op) (valueStep (valuesOf s) op) := by
  cases op with
  | construct x size allocation =>
      cases hx : s.objects x with
      | some buffer =>
          simp only [step, valueStep, hx, valuesOf_some hx]
          exact Refines.same ht
      | none =>
          simp only [step, valueStep, hx, valuesOf_none hx]
          split
          next hsize =>
            cases allocation with
            | none => exact Refines.same ht
            | some bytes =>
                apply refines_put ht (leavesOthers_construct ho x size bytes)
                · simp [hsize.ne']
                · exact contents_of_block (by rw [allocate_block, if_pos rfl])
          next => exact refines_put ht (leavesOthers_empty s x) (by simp) rfl
  | moveConstruct x source =>
      cases hx : s.objects x with
      | some buffer =>
          simp only [step, valueStep, hx, valuesOf_some hx]
          exact Refines.same ht
      | none =>
          cases hsource : s.objects source with
          | none =>
              simp only [step, valueStep, hx, hsource, valuesOf_none hx, valuesOf_none hsource]
              exact Refines.same ht
          | some other =>
              simp only [step, valueStep, hx, hsource, valuesOf_none hx, valuesOf_some hsource]
              exact refines_move ht hsource
  | moveAssign x source =>
      cases hx : s.objects x with
      | none =>
          simp only [step, valueStep, hx, valuesOf_none hx]
          exact Refines.same ht
      | some buffer =>
          cases hsource : s.objects source with
          | none =>
              simp only [step, valueStep, hx, hsource, valuesOf_some hx, valuesOf_none hsource]
              exact Refines.same ht
          | some other =>
              simp only [step, valueStep, hx, hsource, valuesOf_some hx, valuesOf_some hsource]
              split
              next => exact Refines.same ht
              next hne =>
                have hcleared := refines_clear ho ht hx
                have hother : (s.put x (SecureBuffers.clear s.heap buffer)).objects source = some other := by
                  rw [put_objects, if_neg (Ne.symm hne), hsource]
                have hvalue := valuesOf_some hother
                rw [hcleared.values, Function.update_of_ne (Ne.symm hne), valuesOf_some hsource] at hvalue
                have hmoved := refines_move (x := x) hcleared.tidy hother
                rw [hcleared.values, Function.update_idem, ← Option.some.inj hvalue] at hmoved
                simpa [World.put, SecureBuffers.clear] using hmoved
  | resize x newSize allocation =>
      cases hx : s.objects x with
      | none =>
          simp only [step, valueStep, hx, valuesOf_none hx]
          exact Refines.same ht
      | some buffer =>
          simp only [step, hx]
          exact refines_resize ho ht hx hl
  | clear x =>
      cases hx : s.objects x with
      | none =>
          simp only [step, valueStep, hx, valuesOf_none hx]
          exact Refines.same ht
      | some buffer =>
          simp only [step, valueStep, hx, valuesOf_some hx]
          exact refines_clear ho ht hx
  | write x i value =>
      cases hx : s.objects x with
      | none =>
          simp only [step, valueStep, hx, valuesOf_none hx]
          exact Refines.same ht
      | some buffer =>
          obtain ⟨hdata, hi⟩ := hr buffer hx
          obtain ⟨a, ha⟩ := Option.ne_none_iff_exists'.mp hdata
          simp only [step, valueStep, hx, valuesOf_some hx, ha]
          exact refines_write ho ht hx value ha hi
  | destroy x =>
      cases hx : s.objects x with
      | none =>
          simp only [step, valueStep, hx, valuesOf_none hx]
          exact Refines.same ht
      | some buffer =>
          have hcleared := refines_clear ho ht hx
          have hforgotten := valuesOf_forget (s.put x (SecureBuffers.clear s.heap buffer)) x
          have htidy := tidy_forget hcleared.tidy x
          rw [hcleared.values, Function.update_idem] at hforgotten
          simp only [step, valueStep, hx, valuesOf_some hx]
          simp only [World.put, SecureBuffers.clear, Function.update_idem] at hforgotten htidy
          exact ⟨hforgotten, htidy⟩

theorem foldl_or_eq_zero (f : Nat → UInt8) (l : List Nat) (diff : UInt8) :
    l.foldl (fun diff i => diff ||| f i) diff = 0 ↔ diff = 0 ∧ ∀ i ∈ l, f i = 0 := by
  induction l generalizing diff with
  | nil => simp
  | cons i l ih =>
      rw [List.foldl_cons, ih, UInt8.or_eq_zero_iff, List.forall_mem_cons, and_assoc]

theorem constantTimeEquals_iff (hb : Holds h buffer) (hc : Holds h other)
    (htb : buffer.data = none ↔ buffer.size = 0) (htc : other.data = none ↔ other.size = 0) :
    constantTimeEquals h buffer other = true ↔ contentsOf h buffer = contentsOf h other := by
  have hlb := contentsOf_length hb htb
  have hlc := contentsOf_length hc htc
  by_cases hs : buffer.size = other.size
  · rw [constantTimeEquals, if_neg (not_not.mpr hs)]
    cases hdb : buffer.data with
    | none =>
        have hdc : other.data = none := htc.mpr (hs.symm.trans (htb.mp hdb))
        simp [hdc, contentsOf, hdb]
    | some a =>
        cases hdc : other.data with
        | none =>
            have hnone : buffer.data = none := htb.mpr (hs.trans (htc.mp hdc))
            rw [hdb] at hnone
            cases hnone
        | some b =>
            have hca : contentsOf h buffer = h.contents a := by rw [contentsOf, hdb]
            have hcb : contentsOf h other = h.contents b := by rw [contentsOf, hdc]
            rw [hca] at hlb ⊢
            rw [hcb] at hlc ⊢
            simp only [decide_eq_true_eq, foldl_or_eq_zero, true_and, List.mem_range, UInt8.xor_eq_zero_iff]
            constructor
            · intro hall
              apply List.ext_getElem (by omega)
              intro i hi hi'
              have hbyte := hall i (by omega)
              rwa [List.getD_eq_getElem _ _ hi, List.getD_eq_getElem _ _ hi'] at hbyte
            · intro he i _
              rw [he]
  · rw [constantTimeEquals, if_pos hs]
    refine ⟨fun hf => absurd hf Bool.false_ne_true, fun he => absurd ?_ hs⟩
    rw [← hlb, ← hlc, he]

/-- Nothing that a buffer answers tells it from its value. -/
structure LooksLike (s : World) (v : Values) : Prop where
  alive : ∀ x, s.objects x = none ↔ v x = none
  size : ∀ x buffer value, s.objects x = some buffer → v x = some value →
    buffer.size = value.length ∧ (buffer.data = none ↔ value = [])
  contents : ∀ x buffer value, s.objects x = some buffer → v x = some value → contentsOf s.heap buffer = value
  equal : ∀ x y b c, s.objects x = some b → s.objects y = some c →
    (constantTimeEquals s.heap b c = true ↔ v x = v y)

theorem looksLike_valuesOf (ho : Owned s) (ht : Tidy s) : LooksLike s (valuesOf s) where
  alive x := by
    cases hx : s.objects x with
    | none => simp [valuesOf, hx]
    | some buffer => simp [valuesOf, hx]
  size x buffer value hx hv := by
    rw [valuesOf_some hx, Option.some.injEq] at hv
    have hlength := contentsOf_length (ho.holds x buffer hx) (ht x buffer hx)
    rw [hv] at hlength
    refine ⟨hlength.symm, (ht x buffer hx).trans ?_⟩
    rw [← hlength, List.length_eq_zero_iff]
  contents x buffer value hx hv := by
    rw [valuesOf_some hx, Option.some.injEq] at hv
    exact hv
  equal x y b c hb hc := by
    rw [valuesOf_some hb, valuesOf_some hc, Option.some.injEq]
    exact constantTimeEquals_iff (ho.holds x b hb) (ho.holds y c hc) (ht x b hb) (ht y c hc)

/-- As long as no buffer that has a block is refused a resize, buffers that are
moved, resized, written and cleared in any order are told from plain values
by nothing. -/
theorem buffers_look_like_values (ops : List Op)
    (hr : Along step (fun s op => InRange s op ∧ ¬ Loses s op) {} ops) :
    LooksLike (ops.foldl step {}) (ops.foldl valueStep (fun _ => none)) := by
  have hrun : ∀ (s : World), Owned s → Tidy s → Along step (fun s op => InRange s op ∧ ¬ Loses s op) s ops →
      LooksLike (ops.foldl step s) (ops.foldl valueStep (valuesOf s)) := by
    clear hr
    induction ops with
    | nil => exact fun s ho ht _ => looksLike_valuesOf ho ht
    | cons op ops ih =>
        intro s ho ht ha
        obtain ⟨⟨hin, hloses⟩, hrest⟩ := along_cons.mp ha
        have hrefines := step_refines ho ht hin hloses
        rw [List.foldl_cons, List.foldl_cons, ← hrefines.values]
        exact ih (step s op) (step_owned ho hin) hrefines.tidy hrest
  exact hrun {} owned_empty (fun x buffer hx => by cases hx) hr

def movedBuffer : List Op :=
  [.construct 0 2 (some fun _ => 9), .construct 1 4 (some fun _ => 3), .moveAssign 1 0, .resize 1 3 (some fun _ => 5)]

theorem buffers_look_like_values_moved :
    LooksLike (movedBuffer.foldl step {}) (movedBuffer.foldl valueStep (fun _ => none)) :=
  buffers_look_like_values movedBuffer (along_cons.mpr ⟨⟨trivial, id⟩, along_cons.mpr ⟨⟨trivial, id⟩,
    along_cons.mpr ⟨⟨trivial, id⟩, along_cons.mpr ⟨⟨trivial, id⟩, along_nil⟩⟩⟩⟩)

example : movedBuffer.foldl valueStep (fun _ => none) 1 = some [9, 9, 5] := by decide

end BeaconNode.BufferValues
