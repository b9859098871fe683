import HookWeave.Proofs.Image.Limits
import HookWeave.Proofs.Patch.Stores

/-!
# Files that load again

A store writes the image of a module whether or not it can be read again. So after a module was saved
or committed, its file loads if and only if the module keeps to the limits of the reader
(`Module.loads_iff_admitted`): this is the same for all files that hold its image.
-/

namespace HookWeave
open Volume

variable {s s' : Store} {p : Path} {m : Module} {v v' : Volume} {bytes : Bytes}

/-! ## What a file holds -/

/-- A save goes well if the image can be made and the write does. -/
lemma Store.save_ok (listed : (p, m) ∈ s.modules) (made : m.toBytes = .ok bytes)
    (quiet : v.plan 0 = none) :
    s.save p v = .ok (s.modifyWhere (·.same p) Module.clean) ((v.later 1).put p (some bytes)) := by
  have written : s.writeImage p p v = .ok () ((v.later 1).put p (some bytes)) := by
    unfold writeImage
    rw [(image_eq_ok listed).2 made]
    exact Disk.writing_ok (write_ok quiet)
  exact bind_of_ok written

/-- A write that goes well leaves the file with what was written. -/
lemma Volume.file?_of_write (h : Disk.write p bytes v = .ok () v') : v'.file? p = some bytes := by
  cases planned : v.plan 0 with
  | some mishap =>
    obtain ⟨x, failed⟩ : ∃ x, Disk.write p bytes v = .error mishap.cause ((v.later 1).put p x) :=
      write_error planned
    cases failed.symm.trans h
  | none =>
    cases (write_ok planned).symm.trans h
    exact file?_put_self

/-- What is written to the file of a module is the image of the module. -/
lemma Store.of_save_eq_ok (listed : (p, m) ∈ s.modules) (h : s.save p v = .ok s' v') :
    ∃ image, m.toBytes = .ok image ∧ v'.file? p = some image := by
  obtain ⟨_, v₁, written, h⟩ := edit_bind_eq_ok.1 h
  cases h
  unfold writeImage at written
  cases made : m.toBytes with
  | error e =>
    rw [(image_eq_error listed).2 ⟨e, made, rfl⟩] at written
    cases written
  | ok image =>
    rw [(image_eq_ok listed).2 made] at written
    refine ⟨image, rfl, ?_⟩
    cases wrote : Disk.write p image v with
    | ok _ v₂ =>
      cases (Disk.writing_ok wrote).symm.trans written
      exact file?_of_write wrote
    | error e v₂ => cases (Disk.writing_error wrote).symm.trans written

/-- Images are staged only if all of them can be made. -/
lemma Store.exists_image_of_stage {done ps : List Path} (h : s.stage done ps v = .ok () v') :
    ∀ p ∈ ps, ∃ image, s.image p = .ok image := by
  induction ps generalizing done v with
  | nil => exact fun p hp => nomatch hp
  | cons p ps ih =>
    rw [stage] at h
    obtain ⟨_, v₁, first, others⟩ := edit_bind_eq_ok.1 h
    refine List.forall_mem_cons.2 ⟨?_, ih others⟩
    cases made : s.image p with
    | ok image => exact ⟨image, rfl⟩
    | error e =>
      -- The failure is handled by giving up.
      rw [tryCatch_of_error (writeImage_refused made)] at first
      obtain ⟨_, v₂, _, thrown⟩ := edit_bind_eq_ok.1 first
      cases thrown

/-- A commit that goes well leaves the files of the modules that were changed with their images. -/
lemma Store.of_commit_eq_ok {ps : List Path} (listed : (p, m) ∈ s.modules) (dirty : m.dirty = true)
    (clear : v.Clear s.dirtyPaths) (reliable : v.Reliable) (h : s.commit v = .ok (ps, s') v') :
    ∃ image, m.toBytes = .ok image ∧ v'.file? p = some image := by
  obtain ⟨_, v₁, staged, _⟩ := edit_bind_eq_ok.1 h
  obtain ⟨image, encoded⟩ := exists_image (exists_image_of_stage staged)
  obtain ⟨v₂, ran, moves⟩ := commit_ok (clear.separate s.distinct_dirtyPaths) clear encoded reliable
  cases ran.symm.trans h
  have hp := mem_dirtyPaths.2 ⟨m, listed, dirty⟩
  exact ⟨image p, (image_eq_ok listed).1 (encoded p hp), congrArg Cell.file (moves.cells p hp)⟩

/-- A file that holds the image of a module loads if and only if the module keeps to the limits of the
reader. -/
lemma Module.exists_ofFile_iff (h : m.toBytes = .ok bytes) (held : v.file? p = some bytes) :
    (∃ n, Module.ofFile (Disk.files v) p = .ok n) ↔ m.Admitted := by
  have found : Disk.files v p = .ok bytes := by
    simp only [Disk.files, held]
  rw [← Module.exists_ofBytes_iff h]
  constructor
  · rintro ⟨n, loaded⟩
    obtain ⟨_, found', read⟩ := Module.ofFile_eq_ok.1 loaded
    cases found.symm.trans found'
    exact ⟨n, read⟩
  · rintro ⟨n, read⟩
    exact ⟨n, Module.ofFile_eq_ok.2 ⟨bytes, found, read⟩⟩

/-! ## Modules that load again -/

/-- The image of a module is accepted if and only if the module keeps to the limits of the reader, and
then only its file loads after a save or a commit that wrote it. -/
theorem Module.loads_iff_admitted (m : Module) :
    (∀ bytes, m.toBytes = .ok bytes → ((∃ n, Module.ofBytes bytes = .ok n) ↔ m.Admitted))
      ∧ (∀ (s s' : Store) (p : Path) (v v' : Volume), (p, m) ∈ s.modules →
        s.save p v = .ok s' v' → ((∃ n, Module.ofFile (Disk.files v') p = .ok n) ↔ m.Admitted))
      ∧ ∀ (s s' : Store) (p : Path) (v v' : Volume) (ps : List Path), (p, m) ∈ s.modules →
        m.dirty = true → v.Clear s.dirtyPaths → v.Reliable → s.commit v = .ok (ps, s') v' →
          ((∃ n, Module.ofFile (Disk.files v') p = .ok n) ↔ m.Admitted) := by
  refine ⟨fun bytes made => Module.exists_ofBytes_iff made, fun s s' p v v' listed saved => ?_,
    fun s s' p v v' ps listed dirty clear reliable committed => ?_⟩
  · obtain ⟨image, made, held⟩ := Store.of_save_eq_ok listed saved
    exact Module.exists_ofFile_iff made held
  · obtain ⟨image, made, held⟩ := Store.of_commit_eq_ok listed dirty clear reliable committed
    exact Module.exists_ofFile_iff made held

namespace Example

/-- Arrays in one another, and nothing in the innermost. -/
def nested : Nat → AttributeArgument
  | 0 => .array []
  | depth + 1 => .array [nested depth]

/-- A new module with an attribute whose argument nests that deep. -/
def crowd (depth : Nat) : Module where
  name := "crowd"
  references := ["core"]
  types := [⟨"", "Crowd", 1, none, [], [⟨⟨object, ".ctor", ⟨true, .void, []⟩⟩, [nested depth]⟩], [], []⟩]
  methodNames := [[]]
  dirty := true

/-- A store with that module, which is in reach of the reader. -/
def club : Store where
  modules := [(⟨"crowd.dll"⟩, crowd 49)]
  distinct := by decide

/-- A volume without files. -/
def blank : Volume where
  contents _ := none
  plan _ := none

lemma crowd_admitted : (crowd 49).Admitted := by
  intro t ht
  cases List.mem_singleton.1 ht
  refine ⟨fun a ha => ?_, nofun, nofun⟩
  cases List.mem_singleton.1 ha
  exact ⟨⟨by decide, nofun⟩, by decide +kernel⟩

lemma clear_club : blank.Clear club.dirtyPaths := by
  have dirty : club.dirtyPaths = [⟨"crowd.dll"⟩] := List.mergeSort_singleton _
  rw [dirty]
  exact ⟨fun p hp r hr => rfl, by decide +kernel⟩

/-- The module loads again from its image, after it was saved and after it was committed. -/
theorem crowd_loads :
    (∃ bytes, (crowd 49).toBytes = .ok bytes ∧ ∃ n, Module.ofBytes bytes = .ok n)
      ∧ (∃ s' v', club.save ⟨"crowd.dll"⟩ blank = .ok s' v'
        ∧ ∃ n, Module.ofFile (Disk.files v') ⟨"crowd.dll"⟩ = .ok n)
      ∧ ∃ ps s' v', club.commit blank = .ok (ps, s') v'
        ∧ ∃ n, Module.ofFile (Disk.files v') ⟨"crowd.dll"⟩ = .ok n := by
  have written : (crowd 49).toBytes.isOk = true := by decide +kernel
  cases made : (crowd 49).toBytes with
  | error e =>
    rw [made] at written
    cases written
  | ok bytes =>
    have listed : (⟨"crowd.dll"⟩, crowd 49) ∈ club.modules := List.mem_singleton_self _
    have saved := Store.save_ok (v := blank) listed made rfl
    have encoded : ∀ p ∈ club.dirtyPaths, club.image p = .ok bytes := by
      intro p hp
      obtain ⟨m, mem, _⟩ := Store.mem_dirtyPaths.1 hp
      cases List.mem_singleton.1 mem
      exact (Store.image_eq_ok mem).2 made
    obtain ⟨v', committed, _⟩ := Store.commit_ok (clear_club.separate club.distinct_dirtyPaths)
      clear_club encoded fun _ => rfl
    obtain ⟨loads, loadsSaved, loadsCommitted⟩ := Module.loads_iff_admitted (crowd 49)
    refine ⟨⟨bytes, rfl, (loads bytes made).2 crowd_admitted⟩, ⟨_, _, saved, ?_⟩, _, _, v', committed, ?_⟩
    · exact (loadsSaved _ _ _ _ _ listed saved).2 crowd_admitted
    · exact (loadsCommitted _ _ _ _ _ _ listed rfl clear_club (fun _ => rfl) committed).2 crowd_admitted

/-- One level more is written all the same, and refused. -/
theorem crowd_refused : ∃ bytes, (crowd 50).toBytes = .ok bytes
    ∧ Module.ofBytes bytes = .error (.recursionLimit 50) := by
  have written : (crowd 50).toBytes.isOk = true := by decide +kernel
  have fault : ((crowd 50).toBytes >>= fun bytes => discard (Module.ofBytes bytes))
      = .error (.recursionLimit 50) := by decide +kernel
  cases made : (crowd 50).toBytes with
  | error e =>
    rw [made] at written
    cases written
  | ok bytes =>
    rw [made] at fault
    have fault : discard (Module.ofBytes bytes) = .error (.recursionLimit 50) := fault
    refine ⟨bytes, rfl, ?_⟩
    cases read : Module.ofBytes bytes with
    | error e =>
      rw [read] at fault
      cases fault
      rfl
    | ok m =>
      rw [read] at fault
      cases fault

end Example

end HookWeave
