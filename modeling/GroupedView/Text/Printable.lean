import GroupedView.Text.Extending
import GroupedView.Text.Nongraphic

/-!
# GroupedView.Text.Printable — characters that stand for themselves in quoted text

A character stands for itself if it has a shape and does not belong to the character before it:
between quotation marks a mark would be drawn on its neighbour.  The printable ASCII characters
are those from the blank to the tilde (`isPrintable_iff_of_ascii`).
-/

namespace GroupedView.Text

/-- Whether a character stands for itself in quoted text. -/
def isPrintable (c : Char) : Bool :=
  !nongraphic.covers c.toNat && !extending.covers c.toNat

theorem isPrintable_iff_of_ascii {c : Char} (h : c.toNat < 0x80) :
    isPrintable c = true ↔ 0x20 ≤ c.toNat ∧ c.toNat < 0x7F := by
  have hall : ∀ n < 0x80, (!nongraphic.covers n && !extending.covers n) = true ↔
      0x20 ≤ n ∧ n < 0x7F := by decide +kernel
  exact hall c.toNat h

end GroupedView.Text
