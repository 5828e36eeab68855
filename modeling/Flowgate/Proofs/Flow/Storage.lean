import Flowgate.Proofs.File.Descents
import Flowgate.Proofs.Flow.Documents

/-!
The stored document: a save that succeeds leaves exactly the flows that were saved, and one that
fails leaves the document that was there.
-/

namespace Flowgate.Flow.Store

open File (Tree Node Place)

variable {s : Store} {t t' : Tree} {flows : List Flow}

-- The text of the document, if it can be read.
def text? (s : Store) (t : Tree) : Option String := (t.read s.path).toOption

theorem text?_eq_some_iff {text : String} :
    s.text? t = some text ↔ t.find s.path = .ok (.text text) := by
  rw [text?, ← Tree.read_eq_ok_iff]
  cases t.read s.path with
  | error fault => simp [Except.toOption]
  | ok held => simp [Except.toOption]

theorem load_of_text {text : String} (there : s.text? t = some text) :
    s.load t = match document.ofText? text.toList with
      | none => .error (.corrupted s.path)
      | some flows => .ok flows := by
  have found := text?_eq_some_iff.mp there
  have present : t.tryExists s.path = .ok true := by rw [Tree.tryExists, found]
  cases parsed : document.ofText? text.toList <;>
    simp only [load, present, Tree.read_eq_ok_iff.mpr found, parsed]

theorem save_ok (saved : s.save t flows = (.ok (), t')) :
    ∃ made staged, (t.makeDirectories s.dir) = (.ok (), made) ∧
      made.write s.stagingPath (Flows.toJson flows).pretty = .ok staged ∧
      staged.rename s.stagingPath s.path = .ok t' := by
  unfold save at saved
  split at saved
  · cases saved
  · rename_i made dirs
    split at saved
    · cases saved
    · rename_i staged written
      split at saved
      · cases saved
      · rename_i renamed
        cases saved
        exact ⟨made, staged, dirs, written, renamed⟩

theorem text?_saved (saved : s.save t flows = (.ok (), t')) :
    s.text? t' = some (Flows.toJson flows).pretty := by
  obtain ⟨made, staged, -, written, renamed⟩ := save_ok saved
  rw [text?_eq_some_iff, Tree.find_rename renamed, Tree.find_write written]

theorem load_saved (decoded : ∀ f ∈ flows, f.Decoded) (exact : ∀ f ∈ flows, f.Exact)
    (saved : s.save t flows = (.ok (), t')) : s.load t' = .ok flows := by
  rw [load_of_text (text?_saved saved), Flows.ofText?_pretty decoded exact]

-- The trees that a save passes through before it replaces the document: it has made directories, and
-- may have written anything to the staging file beside the document.
def Partway (s : Store) (t t' : Tree) : Prop :=
  ∃ made, t.GrownAlong (File.core (File.steps s.dir)) made ∧
    (t' = made ∨ ∃ text, made.write s.stagingPath text = .ok t')

theorem steps_path (s : Store) : File.steps s.path = File.baseSteps s.dir ++ ["flows.json"] := by
  rw [path, File.steps_join (File.isAbsolute_of_clean (by decide)),
    File.steps_of_clean (by decide)]

theorem steps_stagingPath (s : Store) :
    File.steps s.stagingPath = File.baseSteps s.dir ++ ["flows.json.tmp"] := by
  rw [stagingPath, File.steps_join (File.isAbsolute_of_clean (by decide)),
    File.steps_of_clean (by decide)]

theorem find_staged {text : String} (staged : t.write s.stagingPath text = .ok t') :
    t'.find s.path = t.find s.path :=
  Tree.find_write_sibling s.steps_path s.steps_stagingPath (by decide) (by decide) (by decide) staged

-- The directory of the document is there, or only steps down are left to it. Otherwise the path may
-- go up again out of what is missing, and lead to a document once that is made.
def Placed (s : Store) (t : Tree) : Prop := t.Descends (File.baseSteps s.dir)

theorem Partway.find (partway : s.Partway t t') (sound : t.Sound) (placed : s.Placed t) :
    t'.find s.path = t.find s.path := by
  have entry {made : Tree} (along : t.GrownAlong (File.core (File.steps s.dir)) made) :
      made.find s.path = t.find s.path := by
    rw [← File.core_baseSteps] at along
    exact along.find_entry sound placed s.steps_path (by decide) (by decide)
  obtain ⟨made, along, rfl | ⟨text, staged⟩⟩ := partway
  · exact entry along
  · rw [find_staged staged, entry along]

end Flowgate.Flow.Store
