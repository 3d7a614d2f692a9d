/-
# Pieces of a path

Key definitions: `Path.IsName`, `Path.stem`. Main statements: `Path.pieces_join`,
`Path.extension?_join`.
-/
import Uncomment.Path

namespace Uncomment

namespace Path

open Text

theorem pieces_ne_nil (path : String) : pieces path ≠ [] := by
  rw [pieces, ne_eq, List.map_eq_nil_iff]
  exact splitOn_ne_nil '/' path.toList

/-- What a file, link or folder can be called. -/
structure IsName (name : String) : Prop where
  ne_empty : name ≠ ""
  ne_dot : name ≠ "."
  ne_dots : name ≠ ".."
  no_slash : '/' ∉ name.toList

/-- The pieces of a path, but for the empty one after a slash at the end. -/
def stem (path : String) : List String :=
  if path.toList.getLast? = some '/' then (pieces path).dropLast else pieces path

theorem pieces_of_slash {path : String} {cs : List Char} (h : path.toList = cs ++ ['/']) :
    pieces path = (splitOn '/' cs).map String.ofList ++ [""] := by
  rw [pieces, h, splitOn_append_cons, List.map_append]
  rfl

/-- A path has a stem, and at most an empty piece after it. -/
theorem pieces_eq_stem (path : String) :
    pieces path = stem path ∨ pieces path = stem path ++ [""] := by
  unfold stem
  split
  · next h =>
    obtain ⟨cs, hcs⟩ := List.getLast?_eq_some_iff.mp h
    right
    rw [pieces_of_slash hcs, List.dropLast_concat]
  · exact Or.inl rfl

theorem pieces_join {folder name : String} (hf : folder ≠ "") (hn : '/' ∉ name.toList) :
    pieces (join folder name) = stem folder ++ [name] := by
  have hname : (splitOn '/' name.toList).map String.ofList = [name] := by
    rw [splitOn_of_notMem hn]
    simp
  have hempty : folder.isEmpty = false := by simpa using hf
  unfold join stem
  rw [hempty, Bool.false_or]
  by_cases h : folder.toList.getLast? = some '/'
  · obtain ⟨cs, hcs⟩ := List.getLast?_eq_some_iff.mp h
    rw [if_pos (beq_iff_eq.mpr h), if_pos h, pieces_of_slash hcs, List.dropLast_concat, pieces,
      String.toList_append, hcs, List.append_assoc, List.singleton_append, splitOn_append_cons,
      List.map_append, hname]
  · have hlist : (folder ++ "/" ++ name).toList = folder.toList ++ '/' :: name.toList := by simp
    rw [if_neg (by simpa using h), if_neg h, pieces, hlist, splitOn_append_cons, List.map_append,
      hname, pieces]

theorem join_ne_empty {folder : String} (hf : folder ≠ "") (name : String) :
    join folder name ≠ "" := by
  intro h
  apply hf
  unfold join at h
  split at h
  · exact (String.append_eq_empty_iff.mp h).1
  · simp at h

theorem stem_join {folder name : String} (hf : folder ≠ "") (hn : IsName name) :
    stem (join folder name) = stem folder ++ [name] := by
  have hlast : (join folder name).toList.getLast? ≠ some '/' := by
    obtain ⟨front, hfront⟩ : ∃ front, (join folder name).toList = front ++ name.toList := by
      unfold join
      split
      · exact ⟨_, String.toList_append ..⟩
      · exact ⟨_, String.toList_append ..⟩
    have hne : name.toList ≠ [] := by simpa using hn.ne_empty
    rw [hfront, List.getLast?_append, List.getLast?_eq_some_getLast hne, Option.some_or]
    intro h
    have hmem := List.getLast_mem hne
    rw [Option.some.inj h] at hmem
    exact hn.no_slash hmem
  rw [stem, if_neg hlast, pieces_join hf hn.no_slash]

/-- The path of what some names lead to from a folder. -/
def joinAll (folder : String) (names : List String) : String := names.foldl join folder

/-- A path of names below a folder has the pieces of the folder and these names. -/
theorem pieces_joinAll {names : List String} (hnames : ∀ n ∈ names, IsName n) (hne : names ≠ [])
    {folder : String} (hf : folder ≠ "") :
    pieces (joinAll folder names) = stem folder ++ names := by
  induction names generalizing folder with
  | nil => exact absurd rfl hne
  | cons name names ih =>
    have hname := hnames name List.mem_cons_self
    rw [joinAll, List.foldl_cons]
    cases names with
    | nil => exact pieces_join hf hname.no_slash
    | cons second names =>
      have hrest := ih (fun n hn => hnames n (List.mem_cons_of_mem _ hn)) (by simp)
        (join_ne_empty hf name)
      rw [joinAll] at hrest
      rw [hrest, stem_join hf hname, List.append_assoc, List.singleton_append]

/-! ### The extension of a joined path -/

theorem componentsOf_append (front back : List String) :
    componentsOf (front ++ back) = componentsOf front ++ componentsOf back := by
  induction front using componentsOf.induct with
  | case1 => rfl
  | case2 ps ih => simpa [componentsOf] using ih
  | case3 ps ih => simpa [componentsOf] using ih
  | case4 ps ih => simpa [componentsOf] using ih
  | case5 p ps h₁ h₂ h₃ ih => simp [componentsOf, ih]

theorem componentsOf_singleton {name : String} (hn : IsName name) :
    componentsOf [name] = [.name name] := by
  rw [componentsOf]
  · rfl
  · exact hn.ne_empty
  · exact hn.ne_dot
  · exact hn.ne_dots

theorem getLast?_components {path name : String} {front : List String}
    (hp : pieces path = front ++ [name]) (hn : IsName name) :
    (components path).getLast? = some (.name name) := by
  have hlast (ps : List String) : (componentsOf (ps ++ [name])).getLast? = some (.name name) := by
    rw [componentsOf_append, componentsOf_singleton hn, List.getLast?_concat]
  rw [components, hp]
  split
  · next p ps heq =>
    cases front with
    | nil => cases heq
    | cons first front =>
      have hrest : front ++ [name] = p :: ps := (List.cons.inj heq).2
      rw [← hrest, List.getLast?_cons, hlast]
      rfl
  · next ps heq =>
    cases front with
    | nil => exact absurd (List.cons.inj heq).1 hn.ne_dot
    | cons first front =>
      have hrest : front ++ [name] = ps := (List.cons.inj heq).2
      rw [← hrest, List.getLast?_cons, hlast]
      rfl
  · exact hlast front

theorem extension?_of_pieces {path name : String} {front : List String}
    (hp : pieces path = front ++ [name]) (hn : IsName name) :
    extension? path = nameExtension? name.toList := by
  rw [extension?, getLast?_components hp hn]

end Path

end Uncomment
