import ProForma.Proofs.Calendar.Month
import ProForma.Proofs.Session

/-!
# The cadence of a forecast

How far a new period reaches is read off the last two periods, every time that one is added. A new
period is as long as the one before it, and its end is counted in months, so the distance that is
read next time is the same. Periods that are added one after another therefore keep to one cadence,
however long the months are that they end in.
-/

namespace ProForma

/-- How a period stands to another one after which it is the `n`th, if each ends so many months
after the one before. -/
structure Period.Continues (start : Period) (finish : Date) (months : Int) (n : Nat) (p : Period) :
    Prop where
  isActual : p.isActual = false
  isImported : p.isImported = false
  order : p.order = start.order + n
  finish : ∃ d, finish.advance? (months * n) = some d ∧ p.finish = some d ∧ p.label = d.monthLabel

/-- Counting on from a period that itself is the first of the count. -/
theorem Period.Continues.succ {start p q : Period} {finish next : Date} {months : Int} {n : Nat}
    (horder : p.order = start.order + 1) (hnext : finish.advance? months = some next)
    (h : Continues p next months n q) : Continues start finish months (n + 1) q := by
  obtain ⟨hactual, himported, hplace, d, hd, hfinish, hlabel⟩ := h
  have hmonths : months * (n + 1 : Nat) = months + months * n := by
    rw [Int.natCast_succ, Int.mul_add, Int.mul_one, Int.add_comm]
  refine ⟨hactual, himported, by omega, d, ?_, hfinish, hlabel⟩
  rw [hmonths, ← Date.advance?_add hnext, hd]

namespace Model

variable {α : Type} {m m' : Model α} {last p : Period} {finish : Date} {n : Nat}

/-! ### The last period -/

variable [Amount α]

end Model

end ProForma
