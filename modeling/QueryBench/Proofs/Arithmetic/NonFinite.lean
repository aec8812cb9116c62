import QueryBench.Proofs.Arithmetic.Encoding

/-!
# Numbers that are not finite

What is added to an infinity or to an undefined number does not make it finite, nor does a
division of it.
-/

namespace QueryBench
namespace Binary64

open Float.Model (Format UnpackedFloat)
open Float.Model.UnpackedFloat

/-- An infinity, or not a number. -/
inductive NonFinite : UnpackedFloat → Prop
  | notANumber : NonFinite .notANumber
  | infinity (s : Sign) : NonFinite (.infinity s)

theorem nonFinite_iff {x : Float} : NonFinite x.toModel.unpack ↔ x.isFinite = false := by
  have hfinite : x.isFinite = x.toModel.unpack.isFinite := rfl
  rw [hfinite]
  cases x.toModel.unpack with
  | notANumber => exact iff_of_true .notANumber rfl
  | infinity s => exact iff_of_true (.infinity s) rfl
  | zero s => exact iff_of_false nofun Bool.noConfusion
  | finite s m e hpos => exact iff_of_false nofun Bool.noConfusion

theorem NonFinite.unpack_pack {u : UnpackedFloat} (h : NonFinite u) :
    NonFinite (unpack Format.binary64 (pack Format.binary64 u)) := by
  cases h with
  | notANumber => exact .notANumber
  | infinity s =>
      rw [unpack_pack_infinity]
      exact .infinity s

section Operations

variable {u : UnpackedFloat}

theorem NonFinite.add_right (h : NonFinite u) (v : UnpackedFloat) :
    NonFinite (UnpackedFloat.add Format.binary64 u v) := by
  cases h with
  | notANumber => exact .notANumber
  | infinity s =>
      cases v with
      | notANumber => exact .notANumber
      | infinity t => cases s <;> cases t <;> first | exact .notANumber | exact .infinity _
      | zero t => exact .infinity s
      | finite t m e hpos => exact .infinity s

theorem NonFinite.add_left (h : NonFinite u) (v : UnpackedFloat) :
    NonFinite (UnpackedFloat.add Format.binary64 v u) := by
  cases v with
  | notANumber => exact .notANumber
  | infinity s => exact (NonFinite.infinity s).add_right u
  | zero s =>
      cases h with
      | notANumber => exact .notANumber
      | infinity t => exact .infinity t
  | finite s m e hpos =>
      cases h with
      | notANumber => exact .notANumber
      | infinity t => exact .infinity t

theorem NonFinite.div (h : NonFinite u) (v : UnpackedFloat) :
    NonFinite (UnpackedFloat.div Format.binary64 u v) := by
  cases h with
  | notANumber => exact .notANumber
  | infinity s =>
      cases v with
      | notANumber => exact .notANumber
      | infinity t => exact .notANumber
      | zero t => exact .infinity _
      | finite t m e hpos => exact .infinity _

end Operations

section Floats

variable {x y : Float}

theorem isFinite_add_right (hx : x.isFinite = false) (y : Float) : (x + y).isFinite = false :=
  nonFinite_iff.mp ((nonFinite_iff.mpr hx).add_right _).unpack_pack

theorem isFinite_add_left (hy : y.isFinite = false) (x : Float) : (x + y).isFinite = false :=
  nonFinite_iff.mp ((nonFinite_iff.mpr hy).add_left _).unpack_pack

theorem isFinite_div (hx : x.isFinite = false) (y : Float) : (x / y).isFinite = false :=
  nonFinite_iff.mp ((nonFinite_iff.mpr hx).div _).unpack_pack

end Floats

end Binary64
end QueryBench
