/-
# Well-formed trees

In a well-formed tree the names in a folder are different, and each is a name: not empty, not made
of dots alone, and without a slash. The empty tree is well-formed, and whatever is put into a
well-formed tree or removed from it, the tree stays so.

Key definitions: `Node.WellFormed`. Main statements: `Node.WellFormed.put`,
`Node.WellFormed.remove`.
-/
import Uncomment.Proofs.Places

open Uncomment.Path (IsName)

namespace Uncomment

/-- The pieces of a path hold no slash. -/
theorem Path.slash_notMem_of_mem_pieces {path piece : String} (h : piece ∈ Path.pieces path) :
    '/' ∉ piece.toList := by
  obtain ⟨cs, hcs, rfl⟩ := List.mem_map.mp h
  rw [String.toList_ofList]
  exact Text.sep_notMem_of_mem_splitOn hcs

namespace Node

mutual

/-- In every folder the names are different, and each is a name. -/
def WellFormed : Node → Prop
  | folder entries => (entries.map (·.1)).Nodup ∧ EntriesWellFormed entries
  | _ => True

/-- Every entry has a name and is well-formed. -/
def EntriesWellFormed : List (String × Node) → Prop
  | [] => True
  | (name, node) :: entries => IsName name ∧ node.WellFormed ∧ EntriesWellFormed entries

end

variable {t t' node : Node} {location : Location} {name : String} {entries : List (String × Node)}

theorem entriesWellFormed_iff :
    EntriesWellFormed entries ↔ ∀ entry ∈ entries, IsName entry.1 ∧ entry.2.WellFormed := by
  induction entries with
  | nil => simp [EntriesWellFormed]
  | cons entry entries ih => rw [EntriesWellFormed, ih, List.forall_mem_cons, and_assoc]

theorem wellFormed_empty : (folder []).WellFormed := by
  simp [WellFormed, EntriesWellFormed]

theorem mem_of_child? (h : child? name entries = some node) : (name, node) ∈ entries := by
  induction entries with
  | nil => cases h
  | cons entry entries ih =>
    obtain ⟨k, first⟩ := entry
    rw [child?_cons] at h
    split at h
    · next heq =>
      cases h
      rw [heq]
      exact List.mem_cons_self
    · exact List.mem_cons_of_mem _ (ih h)

theorem EntriesWellFormed.of_child? (h : EntriesWellFormed entries)
    (hchild : child? name entries = some node) : IsName name ∧ node.WellFormed :=
  entriesWellFormed_iff.mp h _ (mem_of_child? hchild)

/-- What lies in a well-formed tree is well-formed. -/
theorem WellFormed.find? (h : t.WellFormed) (hfind : t.find? location = some node) :
    node.WellFormed := by
  induction location generalizing t with
  | nil =>
    rw [find?_nil] at hfind
    cases hfind
    exact h
  | cons name names ih =>
    obtain ⟨entries, next, rfl, hnext, hfound⟩ := exists_child?_of_find? hfind
    rw [WellFormed] at h
    exact ih (h.2.of_child? hnext).2 hfound

/-! ### Changes -/

theorem mem_setEntry {new : Option Node} {entry : String × Node}
    (h : entry ∈ setEntry name new entries) :
    entry ∈ entries ∨ entry.1 = name ∧ new = some entry.2 := by
  induction entries with
  | nil =>
    cases new with
    | none => cases h
    | some n =>
      cases List.mem_singleton.mp h
      exact Or.inr ⟨rfl, rfl⟩
  | cons first entries ih =>
    obtain ⟨k, old⟩ := first
    rw [setEntry] at h
    split at h
    · cases new with
      | none => exact Or.inl (List.mem_cons_of_mem _ h)
      | some n =>
        rcases List.mem_cons.mp h with rfl | h
        · exact Or.inr ⟨rfl, rfl⟩
        · exact Or.inl (List.mem_cons_of_mem _ h)
    · rcases List.mem_cons.mp h with rfl | h
      · exact Or.inl List.mem_cons_self
      · exact (ih h).imp_left (List.mem_cons_of_mem _)

theorem nodup_setEntry (h : (entries.map (·.1)).Nodup) (name : String) (new : Option Node) :
    ((setEntry name new entries).map (·.1)).Nodup := by
  induction entries with
  | nil => cases new <;> simp [setEntry]
  | cons first entries ih =>
    obtain ⟨k, old⟩ := first
    rw [List.map_cons, List.nodup_cons] at h
    rw [setEntry]
    split
    · next hk =>
      cases new with
      | none => exact h.2
      | some n => exact List.nodup_cons.mpr ⟨hk ▸ h.1, h.2⟩
    · next hk =>
      refine List.nodup_cons.mpr ⟨fun hmem => ?_, ih h.2⟩
      obtain ⟨entry, hentry, heq⟩ := List.mem_map.mp hmem
      rcases mem_setEntry hentry with hold | ⟨hname, -⟩
      · exact h.1 (List.mem_map.mpr ⟨entry, hold, heq⟩)
      · exact hk (heq.symm.trans hname)

theorem WellFormed.setEntry (h : (folder entries).WellFormed) {new : Option Node}
    (hnew : ∀ n, new = some n → IsName name ∧ n.WellFormed) :
    (folder (setEntry name new entries)).WellFormed := by
  rw [WellFormed, entriesWellFormed_iff] at h ⊢
  refine ⟨nodup_setEntry h.1 name new, fun entry hentry => ?_⟩
  rcases mem_setEntry hentry with hold | ⟨rfl, hnode⟩
  · exact h.2 entry hold
  · exact hnew _ hnode

/-- A change under names that are names keeps a tree well-formed. -/
theorem WellFormed.alter (h : t.WellFormed) {new : Option Node}
    (hnew : ∀ n, new = some n → (∀ k ∈ location, IsName k) ∧ n.WellFormed) :
    (t.alter new location).WellFormed := by
  induction location generalizing t with
  | nil =>
    cases new with
    | none => exact h
    | some n => exact (hnew n rfl).2
  | cons name names ih =>
    cases t with
    | folder entries =>
      cases names with
      | nil =>
        refine h.setEntry fun n hn => ?_
        obtain ⟨hnames, hwf⟩ := hnew n hn
        exact ⟨hnames name List.mem_cons_self, hwf⟩
      | cons second names =>
        rw [Node.alter]
        split
        · exact h
        · next node hchild =>
          have hentries := h
          rw [WellFormed] at hentries
          obtain ⟨hname, hnode⟩ := hentries.2.of_child? hchild
          refine h.setEntry fun n hn => ⟨hname, ?_⟩
          cases hn
          refine ih hnode fun n hn => ?_
          obtain ⟨hnames, hwf⟩ := hnew n hn
          exact ⟨fun k hk => hnames k (List.mem_cons_of_mem _ hk), hwf⟩
        · simp
    | _ => simpa [Node.alter] using h

/-! ### Building a tree -/

/-- A piece of a path that is not left out and does not lead up is a name. -/
theorem isName_of_piece {piece : String} (hdot : ¬ (piece = "" ∨ piece = ".")) (hup : piece ≠ "..")
    (hslash : '/' ∉ piece.toList) : IsName piece :=
  ⟨fun h => hdot (Or.inl h), fun h => hdot (Or.inr h), hup, hslash⟩

/-- A path leads to a place by names only. -/
theorem isName_of_follow {fresh : Bool} {links : Nat} {here : Location} {pieces : List String}
    (hhere : ∀ k ∈ here, IsName k) (hpieces : ∀ p ∈ pieces, '/' ∉ p.toList)
    (h : t.follow fresh links here pieces = .ok location) : ∀ k ∈ location, IsName k := by
  fun_induction follow t fresh links here pieces with
  | case1 links here =>
    cases h
    exact hhere
  | case2 links here piece rest entries hfolder hdot ih =>
    exact ih hhere (List.forall_mem_cons.mp hpieces).2 h
  | case3 links here rest entries hfolder hdot ih =>
    exact ih (fun k hk => hhere k (List.dropLast_subset here hk))
      (List.forall_mem_cons.mp hpieces).2 h
  | case5 links here piece rest entries hfolder hdot hup hlong hchild hfresh =>
    -- the new name at the end
    cases h
    have hpiece := isName_of_piece hdot hup (List.forall_mem_cons.mp hpieces).1
    exact List.forall_mem_append.mpr ⟨hhere, by simpa using hpiece⟩
  | case8 here piece rest entries hfolder hdot hup hlong target hchild links ih =>
    have hstart : ∀ k ∈ startOf here target, IsName k := by
      unfold startOf
      split
      · simp
      · exact hhere
    refine ih hstart (List.forall_mem_append.mpr ⟨?_, (List.forall_mem_cons.mp hpieces).2⟩) h
    exact fun p hp => Path.slash_notMem_of_mem_pieces hp
  | case9 links here piece rest entries hfolder hdot hup hlong node hchild hlink ih =>
    obtain ⟨hslash, hrest⟩ := List.forall_mem_cons.mp hpieces
    have hpiece := isName_of_piece hdot hup hslash
    exact ih (List.forall_mem_append.mpr ⟨hhere, by simpa using hpiece⟩) hrest h
  | _ => cases h

theorem namesIn_spec {path : String} {names : List String} (h : namesIn path = .ok names) :
    ∀ n ∈ names, ¬ (n = "" ∨ n = ".") ∧ '/' ∉ n.toList := by
  unfold namesIn at h
  split at h
  · cases h
  · cases h
    intro n hn
    obtain ⟨hmem, hdot⟩ := List.mem_filter.mp hn
    exact ⟨by simpa using hdot, Path.slash_notMem_of_mem_pieces hmem⟩

theorem WellFormed.makeFolders (h : t.WellFormed) {here : Location} {names : List String}
    (hhere : ∀ k ∈ here, IsName k) (hnames : ∀ n ∈ names, ¬ (n = "" ∨ n = ".") ∧ '/' ∉ n.toList)
    (hmake : t.makeFolders here names = .ok (t', location)) :
    t'.WellFormed ∧ ∀ k ∈ location, IsName k := by
  induction names generalizing t here with
  | nil =>
    cases hmake
    exact ⟨h, hhere⟩
  | cons name names ih =>
    obtain ⟨⟨hdot, hslash⟩, hrest⟩ := List.forall_mem_cons.mp hnames
    rw [Node.makeFolders] at hmake
    split at hmake
    · next there hfollow =>
      split at hmake
      · refine ih h ?_ hrest hmake
        exact isName_of_follow hhere (by simpa using hslash) hfollow
      · cases hmake
    · next hfollow =>
      split at hmake
      · cases hmake
      · next htaken =>
        have hup : name ≠ ".." := by
          rintro rfl
          simp at htaken
        have hnew : ∀ k ∈ here ++ [name], IsName k :=
          List.forall_mem_append.mpr ⟨hhere, by simpa using isName_of_piece hdot hup hslash⟩
        refine ih (h.alter fun n hn => ?_) hnew hrest hmake
        cases hn
        exact ⟨hnew, wellFormed_empty⟩
    · cases hmake

theorem WellFormed.write (h : t.WellFormed) {here : Location} {mode : Nat} {contents : ByteArray}
    (hhere : ∀ k ∈ here, IsName k) (hname : '/' ∉ name.toList)
    (hwrite : t.write here name mode contents = .ok t') : t'.WellFormed := by
  unfold Node.write at hwrite
  cases hfollow : t.follow true maxLinks here [name] with
  | error e =>
    rw [hfollow] at hwrite
    cases hwrite
  | ok location =>
    have hlocation := isName_of_follow hhere (by simpa using hname) hfollow
    have hfile : (t.alter (some (file mode contents)) location).WellFormed := by
      refine h.alter fun n hn => ?_
      cases hn
      exact ⟨hlocation, by simp [WellFormed]⟩
    rw [hfollow] at hwrite
    simp only [bind, Except.bind] at hwrite
    split at hwrite
    · cases hwrite
      exact hfile
    · split at hwrite
      · cases hwrite
        exact hfile
      · cases hwrite
    · cases hwrite

theorem WellFormed.linkTo (h : t.WellFormed) {here : Location} {target : String}
    (hhere : ∀ k ∈ here, IsName k) (hname : '/' ∉ name.toList)
    (hlink : t.linkTo here name target = .ok t') : t'.WellFormed := by
  unfold Node.linkTo at hlink
  cases hfollow : t.follow true 0 here [name] with
  | error e =>
    rw [hfollow] at hlink
    cases e <;> cases hlink
  | ok location =>
    have hlocation := isName_of_follow hhere (by simpa using hname) hfollow
    rw [hfollow] at hlink
    simp only at hlink
    repeat' split at hlink
    all_goals cases hlink
    refine h.alter fun n hn => ?_
    cases hn
    exact ⟨hlocation, by simp [WellFormed]⟩

/-- **Putting something into a tree keeps it well-formed.** -/
theorem WellFormed.put (h : t.WellFormed) {path : String} (hput : t.put path node = .ok t') :
    t'.WellFormed := by
  unfold Node.put at hput
  cases hin : namesIn path with
  | error e =>
    rw [hin] at hput
    cases hput
  | ok names =>
    have hnames := namesIn_spec hin
    have hfront : ∀ n ∈ names.dropLast, ¬ (n = "" ∨ n = ".") ∧ '/' ∉ n.toList :=
      fun n hn => hnames n (List.dropLast_subset names hn)
    rw [hin] at hput
    simp only [bind, Except.bind] at hput
    split at hput
    · split at hput
      · cases hput
      · next made hmake =>
        cases hput
        exact (h.makeFolders (by simp) hnames hmake).1
    · cases hput
    · cases hput
    · next name hlast =>
      split at hput
      · cases hput
      · next made hmake =>
        obtain ⟨hmade, hhere⟩ := h.makeFolders (by simp) hfront hmake
        split at hput
        · cases hput
        · exact hmade.write hhere (hnames name (List.mem_of_getLast? hlast)).2 hput
    · next target name hlast =>
      split at hput
      · cases hput
      · next made hmake =>
        obtain ⟨hmade, hhere⟩ := h.makeFolders (by simp) hfront hmake
        split at hput
        · cases hput
        · next linked hlink =>
          split at hput
          · cases hput
          · cases hput
            exact hmade.linkTo hhere (hnames name (List.mem_of_getLast? hlast)).2 hlink

/-- **Removing something from a tree keeps it well-formed.** -/
theorem WellFormed.remove (h : t.WellFormed) {path : String} (hremove : t.remove path = .ok t') :
    t'.WellFormed := by
  unfold Node.remove at hremove
  cases hin : namesIn path with
  | error e =>
    rw [hin] at hremove
    cases hremove
  | ok names =>
    rw [hin] at hremove
    simp only [bind, Except.bind] at hremove
    repeat' split at hremove
    all_goals cases hremove
    · exact wellFormed_empty
    · exact h.alter fun n hn => by cases hn

end Node

end Uncomment
