import Bindery.FileTree

/-!
# Saved files

Saving a file makes directories and then one file, and changes no other. If it
fails, at most directories have been made. Afterwards the path leads to the file
that was written, since nothing on the way to it has become something else.
-/

set_option autoImplicit false

namespace Bindery.FileTree

def file? (t : FileTree) (p : Place) : Option Entry :=
  match t.look? p with
  | some .directory => none
  | found => found

def SameFiles (t t' : FileTree) : Prop := ∀ p, t'.file? p = t.file? p

def resolve (t : FileTree) (path : String) : Except DiskFault Place := do
  let start ← t.origin path
  t.walk start (Path.segments path)

structure Saved (t t' : FileTree) (path text : String) : Prop where
  content : t'.readText path = .ok text
  others : ∃ place, t'.resolve path = .ok place ∧ ∀ p, p ≠ place → t'.file? p = t.file? p

/-- The directory above the path is there or can be made, and in it the path names a
file or nothing at all. -/
def Writable (t : FileTree) (path : String) : Prop :=
  ∃ made place name, t.makeDirectories (Path.above path) = .ok made ∧
    made.newPlace path = .ok (place, some name, false) ∧ isLong name = false ∧
    made.look? (place ++ [name]) ≠ some .directory

theorem look?_put_ne (t : FileTree) {p q : Place} (e : Entry) (h : q ≠ p) :
    (t.put p e).look? q = t.look? q := by
  by_cases hq : q = []
  · rw [look?, look?, if_pos hq, if_pos hq]
  · rw [look?_put t p q e hq, if_neg h]

theorem look?_put_self (t : FileTree) (p : Place) (name : String) (e : Entry) :
    (t.put (p ++ [name]) e).look? (p ++ [name]) = some e := by
  rw [look?_put t _ _ e (by simp), if_pos rfl]

theorem file?_put_ne (t : FileTree) {p q : Place} (e : Entry) (h : q ≠ p) :
    (t.put p e).file? q = t.file? q := by
  rw [file?, file?, look?_put_ne t e h]

theorem SameFiles.refl (t : FileTree) : SameFiles t t := fun _ => rfl

theorem SameFiles.trans {t t' t'' : FileTree} (h : SameFiles t t') (h' : SameFiles t' t'') :
    SameFiles t t'' := fun p => (h' p).trans (h p)

theorem sameFiles_makeDirectory {t made : FileTree} {path : String}
    (h : t.makeDirectory path = .ok made) : SameFiles t made := by
  rw [makeDirectory] at h
  cases hplace : t.newPlace path with
  | error fault => simp [hplace, bind, Except.bind] at h
  | ok found =>
    obtain ⟨place, name, slash⟩ := found
    cases name with
    | none => simp [hplace, bind, Except.bind] at h
    | some name =>
      simp only [hplace, bind, Except.bind] at h
      split at h
      · cases h
      · split at h
        · cases h
        · next hnone =>
          cases h
          intro p
          by_cases hp : p = place ++ [name]
          · rw [Bool.not_eq_true, Option.isSome_eq_false_iff, Option.isNone_iff_eq_none] at hnone
            rw [hp, file?, file?, look?_put_self, hnone]
          · exact file?_put_ne t _ hp

theorem sameFiles_makeChain (t : FileTree) (paths : List String) :
    SameFiles t (t.makeChain paths).1 := by
  induction paths with
  | nil => exact .refl t
  | cons path above ih =>
    rw [makeChain]
    split
    · next made hmade => exact sameFiles_makeDirectory hmade
    · split
      · next base fault hbase =>
        rw [hbase] at ih
        exact ih
      · next base hbase =>
        rw [hbase] at ih
        split
        · next made hmade => exact ih.trans (sameFiles_makeDirectory hmade)
        · exact ih
    · exact .refl t

theorem makeDirectories_eq_ok_iff (t made : FileTree) (path : String) :
    t.makeDirectories path = .ok made ↔ t.makeChain (Path.chain path) = (made, none) := by
  rw [makeDirectories]
  split <;> simp_all

theorem write_eq_ok_iff (t written : FileTree) (path : String) (e : Entry) :
    t.write path e = .ok written ↔ ∃ place name, t.newPlace path = .ok (place, some name, false) ∧
      isLong name = false ∧ t.look? (place ++ [name]) ≠ some .directory ∧
      written = t.put (place ++ [name]) e := by
  rw [write]
  cases t.newPlace path with
  | error fault => simp [bind, Except.bind]
  | ok found =>
    obtain ⟨place, name, slash⟩ := found
    rcases name with - | name
    · simp [bind, Except.bind]
    · cases slash with
      | true => simp [bind, Except.bind]
      | false =>
        by_cases hdirectory : t.look? (place ++ [name]) = some .directory
        · cases hlong : isLong name <;> simp [bind, Except.bind, hlong, hdirectory]
        · cases hlong : isLong name with
          | true => simp [bind, Except.bind, hlong]
          | false =>
            simp only [bind, Except.bind, hlong, hdirectory, Bool.false_eq_true, if_false]
            constructor
            · intro h
              cases h
              exact ⟨place, name, rfl, hlong, hdirectory, rfl⟩
            · rintro ⟨place, name, hsame, -, -, rfl⟩
              cases hsame
              rfl

/-- Whether a file can be saved does not hang on what it holds. -/
theorem save_eq_none_iff (t : FileTree) (path : String) (e : Entry) :
    (t.save path e).2 = none ↔ t.Writable path := by
  have hwritable : t.Writable path ↔ ∃ made written,
      t.makeChain (Path.chain (Path.above path)) = (made, none) ∧
        made.write path e = .ok written := by
    constructor
    · rintro ⟨made, place, name, hmade, hplace, hlong, hdirectory⟩
      exact ⟨made, _, (makeDirectories_eq_ok_iff t made _).mp hmade,
        (write_eq_ok_iff made _ path e).mpr ⟨place, name, hplace, hlong, hdirectory, rfl⟩⟩
    · rintro ⟨made, written, hmade, hwrite⟩
      obtain ⟨place, name, hplace, hlong, hdirectory, -⟩ :=
        (write_eq_ok_iff made written path e).mp hwrite
      exact ⟨made, place, name, (makeDirectories_eq_ok_iff t made _).mpr hmade, hplace, hlong,
        hdirectory⟩
  rw [hwritable, save]
  obtain ⟨made, fault⟩ := t.makeChain (Path.chain (Path.above path))
  cases fault with
  | some fault => simp
  | none => cases hwrite : made.write path e <;> simp [hwrite]

theorem walk_append (t : FileTree) (p : Place) (segs rest : List (List Char)) :
    t.walk p (segs ++ rest) = (do t.walk (← t.walk p segs) rest) := by
  induction segs generalizing p with
  | nil => rfl
  | cons seg segs ih =>
    rw [List.cons_append, walk, walk]
    cases t.walkSegment p seg with
    | error fault => rfl
    | ok q => exact ih q

/-- What is put where no directory stands lies on no way that could be walked before. -/
theorem walkSegment_put {t : FileTree} {p q place : Place} {seg : List Char} (e : Entry)
    (hplace : t.look? place ≠ some .directory) (h : t.walkSegment p seg = .ok q) :
    (t.put place e).walkSegment p seg = .ok q := by
  have hkept : ∀ r, t.look? r = some .directory → (t.put place e).look? r = some .directory := by
    intro r hr
    rw [look?_put_ne t e (by rintro rfl; exact hplace hr), hr]
  have hsome : ∀ name, (t.look? (p ++ [name])).isSome = true →
      ((t.put place e).look? (p ++ [name])).isSome = true := by
    intro name hname
    rw [look?_put t _ _ e (by simp)]
    split
    · rfl
    · exact hname
  rw [walkSegment] at h ⊢
  cases hp : t.look? p with
  | none => simp [hp] at h
  | some found =>
    cases found with
    | text content => simp [hp] at h
    | bytes => simp [hp] at h
    | directory =>
      rw [hkept p hp]
      simp only [hp] at h
      by_cases hname : (t.look? (p ++ [String.ofList seg])).isSome = true
      · simpa [hname, hsome _ hname] using h
      · simp only [Bool.not_eq_true] at hname
        simp only [hname, Bool.false_eq_true, if_false] at h
        split at h
        · next hidle => simpa [hidle] using h
        · next hidle =>
          split at h
          · next hdots =>
            subst hdots
            simpa [hidle] using h
          · split at h <;> cases h

theorem walk_put {t : FileTree} {p q place : Place} {segs : List (List Char)} (e : Entry)
    (hplace : t.look? place ≠ some .directory) (h : t.walk p segs = .ok q) :
    (t.put place e).walk p segs = .ok q := by
  induction segs generalizing p with
  | nil => exact h
  | cons seg segs ih =>
    rw [walk] at h ⊢
    cases hseg : t.walkSegment p seg with
    | error fault => simp [hseg, bind, Except.bind] at h
    | ok next =>
      rw [hseg] at h
      rw [walkSegment_put e hplace hseg]
      exact ih h

theorem lastSegment_eq {segs before : List (List Char)} {seg : List Char}
    (h : lastSegment segs = (before, seg, false)) : segs = before ++ [seg] := by
  rw [lastSegment] at h
  cases hs : segs.reverse with
  | nil => simp [hs] at h
  | cons last others =>
    rw [hs] at h
    cases last with
    | nil =>
      -- the third part tells of a slash at the end
      simp only [List.head?_cons] at h
      split at h <;> simp at h
    | cons c cs =>
      have hsegs : segs = others.reverse ++ [c :: cs] := by
        rw [← List.reverse_cons, ← hs, List.reverse_reverse]
      have hsolid : (c :: cs == []) = false := rfl
      rw [List.dropWhile_cons, hsolid] at h
      obtain ⟨rfl, hrest⟩ := Prod.mk.inj h
      obtain ⟨rfl, -⟩ := Prod.mk.inj hrest
      exact hsegs

theorem newPlace_cases {t : FileTree} {path name : String} {place : Place}
    (h : t.newPlace path = .ok (place, some name, false)) :
    ∃ start before seg, t.origin path = .ok start ∧ Path.segments path = before ++ [seg] ∧
      t.walk start before = .ok place ∧ t.look? place = some .directory ∧
      Path.isIdle seg = false ∧ seg ≠ ['.', '.'] ∧ name = String.ofList seg := by
  rw [newPlace] at h
  cases hstart : t.origin path with
  | error fault => simp [hstart, bind, Except.bind] at h
  | ok start =>
    rcases hlast : lastSegment (Path.segments path) with ⟨before, seg, slash⟩
    simp only [hstart, hlast, bind, Except.bind] at h
    cases hwalk : t.walk start before with
    | error fault => simp [hwalk] at h
    | ok found =>
      simp only [hwalk] at h
      split at h
      · next hdirectory =>
        split at h
        · cases h
        · next hplain =>
          rw [not_or, Bool.not_eq_true] at hplain
          cases h
          exact ⟨start, before, seg, rfl, lastSegment_eq hlast, hwalk, hdirectory, hplain.1,
            hplain.2, rfl⟩
      · cases h

/-- Where a file is put, its path leads. -/
theorem resolve_put {t : FileTree} {path name : String} {place : Place} (e : Entry)
    (hnew : t.newPlace path = .ok (place, some name, false)) (hlong : isLong name = false)
    (hdirectory : t.look? (place ++ [name]) ≠ some .directory) :
    (t.put (place ++ [name]) e).resolve path = .ok (place ++ [name]) := by
  obtain ⟨start, before, seg, hstart, hsegs, hwalk, hplace, hidle, hdots, rfl⟩ :=
    newPlace_cases hnew
  have hlast : (t.put (place ++ [String.ofList seg]) e).walkSegment place seg =
      .ok (place ++ [String.ofList seg]) := by
    have hthere : (t.put (place ++ [String.ofList seg]) e).look? place = some .directory := by
      rw [look?_put_ne t e (by simp), hplace]
    simp [walkSegment, hthere, hidle, hdots, hlong, look?_put_self]
  rw [resolve, show (t.put _ e).origin path = .ok start from hstart, hsegs]
  simp only [bind, Except.bind]
  rw [walk_append, walk_put e hdirectory hwalk]
  simp only [bind, Except.bind, walk, hlast]

theorem readText_of_resolve {t : FileTree} {path content : String} {place : Place}
    (h : t.resolve path = .ok place) (hplace : t.look? place = some (.text content)) :
    t.readText path = .ok content := by
  rw [resolve] at h
  rw [readText, find]
  cases hstart : t.origin path with
  | error fault => simp [hstart, bind, Except.bind] at h
  | ok start =>
    simp only [hstart, bind, Except.bind] at h ⊢
    simp [h, hplace]

/-- A save that fails has changed no file. -/
theorem save_failed {t left : FileTree} {path : String} {e : Entry} {fault : SaveFault}
    (h : t.save path e = (left, some fault)) : SameFiles t left := by
  have hmade := sameFiles_makeChain t (Path.chain (Path.above path))
  rw [save] at h
  split at h
  · next made fault hchain =>
    rw [hchain] at hmade
    obtain ⟨rfl, -⟩ := Prod.mk.inj h
    exact hmade
  · next made hchain =>
    rw [hchain] at hmade
    split at h
    · cases h
    · obtain ⟨rfl, -⟩ := Prod.mk.inj h
      exact hmade

theorem save_saved {t written : FileTree} {path text : String}
    (h : t.save path (.text text) = (written, none)) : Saved t written path text := by
  have hmade := sameFiles_makeChain t (Path.chain (Path.above path))
  rw [save] at h
  split at h
  · cases h
  · next made hchain =>
    rw [hchain] at hmade
    split at h
    · next out hwrite =>
      obtain ⟨rfl, -⟩ := Prod.mk.inj h
      obtain ⟨place, name, hnew, hlong, hdirectory, rfl⟩ :=
        (write_eq_ok_iff made _ path _).mp hwrite
      have hresolve := resolve_put (.text text) hnew hlong hdirectory
      refine ⟨readText_of_resolve hresolve (look?_put_self made place name _), _, hresolve, ?_⟩
      intro p hp
      rw [file?_put_ne made _ hp]
      exact hmade p
    · cases h

end Bindery.FileTree
