/-
  Running scripts on a tree of files.

  The run of one script after another is the one run after the other (`Script.run_bind`); the run of
  an operation is the answer of the tree.  With these equations a script is followed step by step,
  without opening its monad.  A script of questions only leaves the tree as it is
  (`Script.LooksOnly`).
-/
import Embroidery.Files.Workspace

namespace Embroidery
namespace Script

variable {α β : Type}

theorem run_bind (s : Script α) (f : α → Script β) (w : Workspace) :
    (s >>= f).run w = (f (s.run w).1).run (s.run w).2 := by
  show (s.bind f).run w = _
  induction s generalizing w with
  | done value => rfl
  | ask request next ih => exact ih (w.answer request).1 (w.answer request).2

theorem run_look (p : Path) (w : Workspace) :
    (look p).run w = ((w.find p).toOption.map Entry.kind, w) := rfl

theorem run_read (p : Path) (w : Workspace) : (read p).run w = (w.read p, w) := rfl

theorem run_writeText (p : Path) (text : String) (w : Workspace) :
    (writeText p text).run w = w.write p text.toUTF8 := rfl

theorem run_makeFolder (p : Path) (w : Workspace) : (makeFolder p).run w = w.makeFolder p := rfl

theorem run_makeFresh (folder : Path) (start ending : String) (w : Workspace) :
    (makeFresh folder start ending).run w = w.makeFresh folder start ending := rfl

theorem run_remove (p : Path) (w : Workspace) : (remove p).run w = w.remove p := rfl

theorem run_copy (source target : Path) (w : Workspace) :
    (copy source target).run w = w.copy source target := rfl

theorem fromUTF8?_toUTF8 (text : String) : String.fromUTF8? text.toUTF8 = some text := by
  rw [String.fromUTF8?]
  exact dif_pos text.isValidUTF8

/-- The text that a file holds. -/
theorem run_readText {p : Path} {w : Workspace} {text : String} (h : w.read p = .ok text.toUTF8) :
    (readText p).run w = (.ok text, w) := by
  rw [readText, run_bind, run_read, h]
  dsimp only
  rw [fromUTF8?_toUTF8]
  rfl

/-! ## Scripts that change nothing -/

/-- The script leaves every tree as it is. -/
def LooksOnly (s : Script α) : Prop := ∀ w, (s.run w).2 = w

theorem looksOnly_pure (value : α) : (pure value : Script α).LooksOnly := fun _ => rfl

theorem looksOnly_look (p : Path) : (look p).LooksOnly := fun _ => rfl

theorem looksOnly_read (p : Path) : (read p).LooksOnly := fun _ => rfl

theorem LooksOnly.bind {s : Script α} {f : α → Script β} (hs : s.LooksOnly)
    (hf : ∀ a, (f a).LooksOnly) : (s >>= f).LooksOnly := by
  intro w
  rw [run_bind, hf, hs]

theorem looksOnly_readText (p : Path) : (readText p).LooksOnly := by
  refine (looksOnly_read p).bind fun answer => ?_
  cases answer with
  | error fault => exact looksOnly_pure _
  | ok content =>
    dsimp only
    split
    · exact looksOnly_pure _
    · exact looksOnly_pure _

end Script
end Embroidery
