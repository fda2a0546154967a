import FirmwareAudit.Proofs.Walks

/-! # Places

Without links, where a path leads is read off its names: whatever the tree, a walk that comes to an
end comes to that place. So no ending takes a path to where it led without it, and a call on a path
changes nothing but what is at its place.
-/
namespace FirmwareAudit
open Text

namespace Target

def location : Target → Location
  | node l _ => l
  | vacant l _ => l

end Target

namespace FileTree

/-- One name farther: on the spot, up or down. -/
def move (here : Location) (name : String) : Location :=
  if name = "." then here else if name = ".." then here.tail else name :: here

/-- The place that names lead to. -/
def place (here : Location) (names : List String) : Location := names.foldl move here

/-- The place that a path leads to. -/
def placeOf (cwd path : String) : Location := place [] (walkedNames cwd path)

theorem place_concat (here : Location) (names : List String) (name : String) :
    place here (names ++ [name]) = move (place here names) name :=
  List.foldl_concat ..

theorem move_of_isEntry {name : String} (h : IsEntry name) (here : Location) :
    move here name = name :: here := by
  rw [move, if_neg h.1, if_neg h.2]

/-- A walk that ends, ends at its place. -/
theorem location_of_walk {t : FileTree} {here : Location} {names : List String} {target : Target}
    (h : t.walk here names = .ok target) : target.location = place here names := by
  induction names generalizing here with
  | nil =>
    unfold walk at h
    split at h
    · cases h
      rfl
    · cases h
  | cons name rest ih =>
    have hplace : place here (name :: rest) = place (move here name) rest := rfl
    rw [hplace, move]
    unfold walk at h
    split at h
    · cases h
    · cases h
    · split at h
      · cases h
      · by_cases hdot : name = "."
        · rw [if_pos hdot] at h ⊢
          exact ih h
        · rw [if_neg hdot] at h ⊢
          by_cases hup : name = ".."
          · rw [if_pos hup] at h ⊢
            exact ih h
          · rw [if_neg hup] at h ⊢
            split at h
            · cases h
            · split at h
              · exact ih h
              · split at h
                · next hnil =>
                  cases h
                  rw [hnil]
                  rfl
                · cases h

theorem walk_of_resolve {t : FileTree} {cwd path : String} {target : Target}
    (h : t.resolve cwd path = .ok target) : t.walk [] (walkedNames cwd path) = .ok target := by
  obtain ⟨-, hf⟩ := follow_of_resolve h
  unfold follow at hf
  split at hf
  · cases hf
  · split at hf
    · next hw =>
      split at hf
      · cases hf
      · rwa [hw]
    · exact hf

/-- A path that leads somewhere leads to its place. -/
theorem location_of_resolve {t : FileTree} {cwd path : String} {target : Target}
    (h : t.resolve cwd path = .ok target) : target.location = placeOf cwd path :=
  location_of_walk (walk_of_resolve h)

/-! ## Beside an image -/

theorem move_ne_ending (here : Location) (name : String) {e : String} (he : IsEnding e) :
    move here name ≠ (name ++ e) :: here := by
  intro h
  have hlen := congrArg List.length h
  unfold move at h hlen
  split at h
  · next hdot =>
    rw [if_pos hdot, List.length_cons] at hlen
    omega
  · next hdot =>
    rw [if_neg hdot] at hlen
    split at h
    · next hup =>
      rw [if_pos hup, List.length_tail, List.length_cons] at hlen
      omega
    · have hname : name = name ++ e := (List.cons.inj h).1
      have hl := congrArg String.length hname
      have h3 := he.2
      rw [String.length_append] at hl
      omega

/-- A file named after an image never lies where the image does, even if the image is a directory
that the path reaches by going up. -/
theorem placeOf_withEnding_ne (cwd : String) (image : Path) {e : String} (he : IsEnding e) :
    placeOf cwd (image.withEnding e).toString ≠ placeOf cwd image.toString := by
  let front := if image.anchor = .relative then steps cwd else []
  have hplace : placeOf cwd (image.withEnding e).toString =
      (image.stem ++ e) :: place [] (front ++ image.names.dropLast) := by
    rw [placeOf, walkedNames_withEnding cwd image he, place_concat, move_of_isEntry (isEntry_of_isEnding he)]
  have himage : placeOf cwd image.toString = place [] (front ++
      if image.anchor = .relative ∧ image.names = [] then ["."] else image.names) := by
    rw [placeOf, walkedNames_path]
  rw [hplace, himage]
  by_cases hnames : image.names = []
  · -- The image is a directory that the artifacts lie in.
    have hspot : place [] (front ++
        if image.anchor = .relative ∧ image.names = [] then ["."] else image.names) =
          place [] front := by
      split
      · rw [place_concat]
        rfl
      · rw [hnames, List.append_nil]
    rw [hspot, hnames, List.dropLast_nil, List.append_nil]
    exact List.cons_ne_self _ _
  · have hlast : image.names = image.names.dropLast ++ [image.stem] := by
      have hs : image.stem = image.names.getLast hnames := by
        simp [Path.stem, List.getLast?_eq_some_getLast hnames]
      rw [hs, List.dropLast_concat_getLast hnames]
    rw [if_neg fun h => hnames h.2]
    nth_rewrite 2 [hlast]
    rw [← List.append_assoc, place_concat]
    exact (move_ne_ending _ image.stem he).symm

/-- Whatever the trees, the image and an artifact of it are not in the same place. -/
theorem location_ne_of_artifact {t t' : FileTree} {cwd : String} {image f : Path}
    {target target' : Target} (hf : f ∈ (Artifacts.ofImage image).all)
    (h : t.resolve cwd image.toString = .ok target)
    (h' : t'.resolve cwd f.toString = .ok target') : target.location ≠ target'.location := by
  obtain ⟨e, he, rfl, -⟩ := Artifacts.toString_of_mem_all hf
  rw [location_of_resolve h, location_of_resolve h']
  exact (placeOf_withEnding_ne cwd image (Artifacts.isEnding_of_mem he)).symm

/-! ## What calls leave alone -/

theorem find?_of_unlink {t t' : FileTree} {cwd path : String} (h : t.unlink cwd path = .ok t')
    {l : Location} (hl : ∀ target, t.resolve cwd path = .ok target → target.location ≠ l) :
    t'.find? l = t.find? l := by
  unfold unlink at h
  cases hr : t.resolve cwd path with
  | error e => simp [hr] at h
  | ok target =>
    have hne := hl target hr
    rw [hr] at h
    cases target with
    | vacant l' d => cases h
    | node l' n =>
      cases n with
      | directory d => cases h
      | file f =>
        simp only at h
        split at h
        · cases h
        · split at h
          · cases h
            exact find?_erase_of_ne t (Ne.symm hne)
          · cases h

theorem find?_of_openForWriting {t t' : FileTree} {cwd path : String} {mode : WriteMode}
    {handle : Handle} (h : t.openForWriting cwd path mode = .ok (handle, t')) {l : Location}
    (hl : ∀ target, t.resolve cwd path = .ok target → target.location ≠ l) :
    handle.location ≠ l ∧ t'.find? l = t.find? l := by
  unfold openForWriting at h
  cases hr : t.resolve cwd path with
  | error e => simp [hr] at h
  | ok target =>
    have hne := hl target hr
    rw [hr] at h
    cases target with
    | vacant l' d =>
      simp only at h
      split at h
      · cases h
      · split at h
        · cases h
          exact ⟨hne, find?_create_of_ne t _ (Ne.symm hne)⟩
        · cases h
    | node l' n =>
      cases n with
      | directory d => cases h
      | file f =>
        simp only at h
        split at h
        · cases h
          refine ⟨hne, ?_⟩
          split
          · exact find?_set_of_ne t _ (Ne.symm hne)
          · rfl
        · cases h

end FileTree

end FirmwareAudit
