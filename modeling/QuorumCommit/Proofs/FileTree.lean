import QuorumCommit.FileTree.Replace

/-!
A file that was replaced has its new content. The temporary file moves to the very place that the
path of the file leads to, and no folder on the way there is touched.
-/
namespace QuorumCommit.FileTree

variable {t t' : FileTree} {trail trail' : Trail} {p : Path} {source place : Entry}
  {item : FileItem}

theorem bind_eq_ok {α β : Type} {x : Run α} {f : α → Run β} {b : β} :
    (x >>= f) t = (.ok b, t') ↔
      ∃ a between, x t = (.ok a, between) ∧ f a between = (.ok b, t') := by
  have applied : (x >>= f) t = match x t with
      | (.ok a, between) => f a between
      | (.error fault, between) => (.error fault, between) := by
    simp only [bind, ExceptT.bind, ExceptT.mk, StateT.bind, Id]
    rcases x t with ⟨_ | _, _⟩ <;> rfl
  rw [applied]
  rcases x t with ⟨fault | a, between⟩
  · constructor
    · nofun
    · rintro ⟨_, _, ⟨⟩, _⟩
  · constructor
    · exact fun h => ⟨a, between, rfl, h⟩
    · rintro ⟨_, _, ⟨⟩, h⟩
      exact h

def HasFolders (t t' : FileTree) : Prop :=
  ∀ (entry : Entry) number, t.items[entry]? = some (.folder number) →
    t'.items[entry]? = some (.folder number)

theorem HasFolders.step (h : t.HasFolders t') {name : String}
    (found : t.step trail name = .ok (.folder trail')) :
    t'.step trail name = .ok (.folder trail') := by
  unfold FileTree.step at *
  split at found
  · next dot => rwa [if_pos dot]
  · next dot =>
    rw [if_neg dot]
    split at found
    · next dots => rwa [if_pos dots]
    · next dots =>
      rw [if_neg dots]
      split at found
      · cases found
      · next short =>
        rw [if_neg short]
        cases known : t.items[(⟨trail.inner, name⟩ : Entry)]? with
        | none =>
          rw [known] at found
          cases found
        | some item =>
          rw [known] at found
          cases item with
          | folder number =>
            rw [h _ _ known]
            exact found
          | file bytes => cases found

theorem enter_eq_ok {name : String} :
    t.enter trail name = .ok trail' ↔ t.step trail name = .ok (.folder trail') := by
  unfold enter
  rcases t.step trail name with _ | _ | _ | _ <;> simp

theorem HasFolders.walk (h : t.HasFolders t') {names : List String}
    (walked : t.walk trail names = .ok trail') : t'.walk trail names = .ok trail' := by
  induction names generalizing trail with
  | nil => exact walked
  | cons name rest ih =>
    unfold FileTree.walk at *
    rw [List.foldlM_cons] at *
    cases entered : t.enter trail name with
    | error e =>
      rw [entered] at walked
      cases walked
    | ok inner =>
      rw [entered] at walked
      rw [enter_eq_ok.2 (h.step (enter_eq_ok.1 entered))]
      exact ih walked

/-- A path that a file can take: a folder is there to hold it, and none stands in its place. -/
structure Target (t : FileTree) (p : Path) (folder : Trail) : Prop where
  walk : t.walk (start p) p.names.dropLast = .ok folder
  named : p.names.getLastD "." ≠ "." ∧ p.names.getLastD "." ≠ ".."
  short : ¬ longestName < (p.names.getLastD ".").utf8ByteSize
  open_ : p.endsInSlash = false
  free : ∀ number, t.items[(⟨folder.inner, p.names.getLastD "."⟩ : Entry)]? ≠ some (.folder number)

theorem target_eq_ok (h : t.target p = .ok place) :
    ∃ folder, t.Target p folder ∧ place = ⟨folder.inner, p.names.getLastD "."⟩ := by
  unfold target at h
  cases walk : t.walk (start p) p.names.dropLast with
  | error e =>
    rw [walk] at h
    cases h
  | ok folder =>
    rw [walk] at h
    refine ⟨folder, ?_⟩
    simp only [bind, Except.bind, throw, throwThe, MonadExceptOf.throw, pure, Except.pure] at h
    split at h
    · cases h
    · next found stepped =>
      split at h
      · cases h
      · next named =>
        split at h
        · cases h
        · next noSlash =>
          split at h
          · cases h
          · next file =>
            cases h
            obtain ⟨dot, dots⟩ := not_or.1 named
            unfold FileTree.step at stepped
            rw [if_neg dot, if_neg dots] at stepped
            split at stepped
            · cases stepped
            · next short =>
              refine ⟨⟨walk, ⟨dot, dots⟩, short, by simpa using noSlash,
                fun number known => ?_⟩, rfl⟩
              rw [known] at stepped
              cases stepped
              exact file _ rfl

theorem Target.find {folder : Trail} {bytes : List UInt8} (h : t.Target p folder)
    (folders : t.HasFolders t')
    (file : t'.items[(⟨folder.inner, p.names.getLastD "."⟩ : Entry)]? = some (.file bytes)) :
    t'.find p = .ok (.file bytes) := by
  have walk := folders.walk h.walk
  unfold FileTree.find
  simp only [h.open_, Bool.false_eq_true, ↓reduceIte, walk, bind, Except.bind]
  unfold FileTree.step
  rw [if_neg h.named.1, if_neg h.named.2, if_neg h.short, file]

theorem Target.not_isEmpty {folder : Trail} (h : t.Target p folder) : p.isEmpty = false := by
  have named := h.named.1
  unfold Path.names at named
  unfold Path.isEmpty
  cases parts : p.parts with
  | nil => simp [parts] at named
  | cons => simp

/-- What was moved to a path is found there. -/
theorem find_move {bytes : List UInt8} (h : move source p t = (.ok (), t'))
    (file : t.items[source]? = some (.file bytes)) :
    refusal? p = none ∧ p.isEmpty = false ∧ t'.find p = .ok (.file bytes) := by
  unfold move at h
  cases refused : refusal? p with
  | some fault =>
    rw [refused] at h
    cases h
  | none =>
    rw [refused] at h
    cases aimed : t.target p with
    | error e =>
      rw [aimed] at h
      cases h
    | ok place =>
      obtain ⟨folder, target, rfl⟩ := target_eq_ok aimed
      rw [aimed, file] at h
      cases h
      refine ⟨rfl, target.not_isEmpty, target.find (fun entry number known => ?_) (by simp)⟩
      have apart : entry ≠ ⟨folder.inner, p.names.getLastD "."⟩ := by
        rintro rfl
        exact target.free number known
      have other : entry ≠ source := by
        rintro rfl
        cases file.symm.trans known
      simp only [Std.ExtTreeMap.getElem?_insert, Std.ExtTreeMap.getElem?_erase,
        Std.compare_eq_iff_eq]
      rwa [if_neg apart.symm, if_neg other.symm]

theorem writeTemporary_eq_ok {parent : Path} {name : String} {bytes : List UInt8}
    (h : writeTemporary parent name bytes t = (.ok place, t')) :
    t'.items[place]? = some (.file bytes) := by
  unfold writeTemporary at h
  dsimp only at h
  split at h
  · cases h
  · split at h
    · cases h
    · split at h
      · cases h
      · cases h
        simp [put]

/-- A file that was replaced reads as what it was replaced with. -/
theorem read_replace {path : String} {bytes : List UInt8}
    (h : replace path bytes t = (.ok (), t')) : t'.read path = .ok (some bytes) := by
  unfold replace at h
  cases folder : (Path.ofString path).parent? with
  | none =>
    rw [folder] at h
    cases h
  | some parent =>
    rw [folder] at h
    obtain ⟨_, made, -, h⟩ := bind_eq_ok.1 h
    obtain ⟨place, written, writes, h⟩ := bind_eq_ok.1 h
    obtain ⟨_, moved, moves, h⟩ := bind_eq_ok.1 h
    obtain ⟨allowed, named, found⟩ := find_move moves (writeTemporary_eq_ok writes)
    obtain rfl : moved = t' := by
      split at h
      · cases h
      · cases h
        rfl
    unfold read
    simp [allowed, named, found]

end QuorumCommit.FileTree
