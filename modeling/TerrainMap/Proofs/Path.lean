import Mathlib.Tactic.MkIffOfInductiveProp
import TerrainMap.Path

/-!
Paths of the entries of a directory. A name without a slash is put behind
whatever its directory is written as, and is found again as the last component;
what is in front of it is the same for all entries.
-/

namespace TerrainMap.Path

/-- A name that an entry of a directory can have. -/
@[mk_iff] structure IsName (name : String) : Prop where
  noSlash : '/' ∉ name.toList
  notEmpty : name.toList ≠ []
  notHere : name.toList ≠ ['.']
  notUp : name.toList ≠ ['.', '.']

instance (name : String) : Decidable (IsName name) := decidable_of_iff _ (isName_iff name).symm

/-- What stands in front of a name that is joined to a directory. -/
def lead (base : Path) : List Char :=
  match base.text.toList.getLast? with
  | none => []
  | some '/' => base.text.toList
  | some _ => base.text.toList ++ ['/']

theorem toList_join {base : Path} {name : String} (hname : '/' ∉ name.toList) :
    (base.join ⟨name⟩).text.toList = base.lead ++ name.toList := by
  have hrelative : (Path.mk name).isAbsolute = false := by
    simp only [isAbsolute, beq_eq_false_iff_ne]
    intro h
    exact hname (List.mem_of_mem_head? h)
  simp only [join, hrelative, Bool.false_eq_true, if_false, lead]
  rcases hlast : base.text.toList.getLast? with _ | c
  · rfl
  · by_cases hc : c = '/'
    · subst hc
      exact String.toList_append
    · simp

/-- Names of one directory are told apart by their paths. -/
theorem join_inj {base : Path} {name name' : String} (hname : '/' ∉ name.toList)
    (hname' : '/' ∉ name'.toList) (h : base.join ⟨name⟩ = base.join ⟨name'⟩) : name = name' := by
  have hchars := congrArg (·.text.toList) h
  simp only [toList_join hname, toList_join hname'] at hchars
  exact String.toList_injective (List.append_cancel_left hchars)

theorem componentOfPiece?_name {name : String} (hname : IsName name) :
    componentOfPiece? name.toList = some (.name name) := by
  simp [componentOfPiece?, hname.notEmpty, hname.notHere, hname.notUp]

/-- What the first piece of a path stands for. It is the root if it is empty
and other pieces follow. -/
def firstComponent (first : List Char) (follow : Bool) : List Component :=
  if first = ['.'] then [.here]
  else if first = [] ∧ follow then [.root]
  else (componentOfPiece? first).toList

theorem components_of_pieces {p : Path} {first : List Char} {rest : List (List Char)}
    (h : p.pieces = first :: rest) :
    p.components = firstComponent first (!rest.isEmpty) ++ rest.filterMap componentOfPiece? := by
  rw [components, h, firstComponent]
  split
  · rename_i hfirst
    cases hfirst
    rfl
  · rename_i next rest' hfirst
    cases hfirst
    rfl
  · rename_i hdot hroot
    have hfirst : first ≠ ['.'] := by
      rintro rfl
      exact hdot rest rfl
    have hempty : ¬ (first = [] ∧ (!rest.isEmpty) = true) := by
      rintro ⟨rfl, hrest⟩
      cases rest with
      | nil => cases hrest
      | cons next rest => exact hroot next rest rfl
    rw [if_neg hfirst, if_neg hempty, List.filterMap_cons]
    cases componentOfPiece? first with
    | none => rfl
    | some component => rfl

theorem pieces_ne_nil (p : Path) : p.pieces ≠ [] := List.splitOn_ne_nil _ _

/-- A name that is joined to a path is one component more. -/
theorem components_join (base : Path) {name : String} (hname : IsName name) :
    (base.join ⟨name⟩).components = base.components ++ [.name name] := by
  have hlast : [name.toList].filterMap componentOfPiece? = [.name name] := by
    rw [List.filterMap_cons_some (componentOfPiece?_name hname), List.filterMap_nil]
  have hpieces : (base.join ⟨name⟩).pieces = (base.lead ++ name.toList).splitOn '/' := by
    rw [pieces, toList_join hname.noSlash]
  have hbehind (front : List Char) : (front ++ ['/'] ++ name.toList).splitOn '/' =
      front.splitOn '/' ++ [name.toList] := by
    rw [List.append_assoc, List.singleton_append, List.splitOn_append_cons_self,
      List.splitOn_eq_singleton hname.noSlash]
  rw [lead] at hpieces
  split at hpieces
  · rename_i hempty
    have hbase : base.pieces = [[]] := by
      rw [pieces, List.getLast?_eq_none_iff.mp hempty]
      rfl
    rw [List.nil_append, List.splitOn_eq_singleton hname.noSlash] at hpieces
    rw [components_of_pieces hpieces, components_of_pieces hbase]
    simp [firstComponent, componentOfPiece?, hname.notEmpty, hname.notHere, hname.notUp]
  · rename_i hslash
    obtain ⟨front, hfront⟩ := List.getLast?_eq_some_iff.mp hslash
    have hbase : base.pieces = front.splitOn '/' ++ [[]] := by
      rw [pieces, hfront, List.splitOn_append_cons_self]
      rfl
    rw [hfront, hbehind] at hpieces
    obtain ⟨first, rest, hrest⟩ := List.exists_cons_of_ne_nil (List.splitOn_ne_nil '/' front)
    rw [hrest, List.cons_append] at hpieces hbase
    rw [components_of_pieces hpieces, components_of_pieces hbase]
    have hmore (piece : List Char) : (rest ++ [piece]).isEmpty = false := by simp
    simp [hmore, List.filterMap_append, hlast, componentOfPiece?]
  · rename_i c _ hlastChar
    rw [hbehind] at hpieces
    obtain ⟨first, rest, hrest⟩ := List.exists_cons_of_ne_nil (pieces_ne_nil base)
    have hsplit : base.text.toList.splitOn '/' = first :: rest := hrest
    rw [hsplit, List.cons_append] at hpieces
    rw [components_of_pieces hpieces, components_of_pieces hrest]
    have hfirst : firstComponent first (!(rest ++ [name.toList]).isEmpty) =
        firstComponent first (!rest.isEmpty) := by
      cases rest with
      | cons next rest => rfl
      | nil =>
          -- a path that is one piece is not empty here
          have htext : ['/'].intercalate (base.text.toList.splitOn '/') = base.text.toList :=
            List.intercalate_splitOn '/'
          rw [hsplit] at htext
          have hne : first ≠ [] := by
            rintro rfl
            rw [← htext] at hlastChar
            cases hlastChar
          simp [firstComponent, hne]
    rw [hfirst, List.filterMap_append, hlast, List.append_assoc]

theorem fileName?_join (base : Path) {name : String} (hname : IsName name) :
    (base.join ⟨name⟩).fileName? = some name := by
  rw [fileName?, components_join base hname, List.getLast?_concat]

theorem lead_cases (base : Path) : base.lead = [] ∨ ∃ front, base.lead = front ++ ['/'] := by
  rw [lead]
  split
  · exact .inl rfl
  · rename_i hlast
    exact .inr (List.getLast?_eq_some_iff.mp hlast)
  · exact .inr ⟨_, rfl⟩

theorem trimReversed_append {name : String} (hname : IsName name) (rest : List Char) :
    trimReversed (name.toList.reverse ++ rest) = name.toList.reverse ++ rest := by
  have hslash : '/' ∉ name.toList.reverse := by simpa using hname.noSlash
  have hdot : name.toList.reverse ≠ ['.'] := by
    intro h
    apply hname.notHere
    rw [← List.reverse_reverse name.toList, h]
    rfl
  have hempty : name.toList.reverse ≠ [] := by simpa using hname.notEmpty
  generalize name.toList.reverse = chars at *
  cases chars with
  | nil => exact absurd rfl hempty
  | cons c chars =>
      have hc : c ≠ '/' := fun h => hslash (h ▸ List.mem_cons_self)
      cases chars with
      | nil =>
          have hcdot : c ≠ '.' := fun h => hdot (h ▸ rfl)
          simp [trimReversed, hc, hcdot]
      | cons d chars =>
          have hd : d ≠ '/' := fun h => hslash (h ▸ List.mem_cons_of_mem _ List.mem_cons_self)
          simp [trimReversed, hc, hd]

theorem splitLead_name {name : String} (hname : IsName name) :
    splitLead name.toList = ([], name.toList) := by
  have hslash := hname.noSlash
  have hdot := hname.notHere
  generalize name.toList = chars at *
  rw [splitLead.eq_def]
  split
  · exact absurd List.mem_cons_self hslash
  · exact absurd rfl hdot
  · exact absurd (List.mem_cons_of_mem _ List.mem_cons_self) hslash
  · rfl

/-- What a path begins with stands in front of the name. -/
theorem splitLead_join (base : Path) : ∃ start body : List Char,
    (body.reverse = [] ∨ ∃ more, body.reverse = '/' :: more) ∧
      ∀ name, IsName name →
        splitLead (base.lead ++ name.toList) = (start, body ++ name.toList) := by
  rcases lead_cases base with hlead | ⟨front, hlead⟩
  · refine ⟨[], [], .inl rfl, fun name hname => ?_⟩
    rw [hlead, List.nil_append, splitLead_name hname]
  · have hbody (chars : List Char) : ∃ more, (chars ++ ['/']).reverse = '/' :: more :=
      ⟨chars.reverse, by simp⟩
    simp only [hlead, List.append_assoc, List.singleton_append]
    cases front with
    | nil => exact ⟨['/'], [], .inl rfl, fun name _ => rfl⟩
    | cons c rest =>
        by_cases hroot : c = '/'
        · subst hroot
          exact ⟨['/'], rest ++ ['/'], .inr (hbody rest), fun name _ => by simp [splitLead]⟩
        by_cases hdot : c = '.'
        · subst hdot
          cases rest with
          | nil => exact ⟨['.'], ['/'], .inr (hbody []), fun name _ => rfl⟩
          | cons d rest =>
              by_cases hd : d = '/'
              · subst hd
                exact ⟨['.'], '/' :: rest ++ ['/'], .inr (hbody ('/' :: rest)),
                  fun name _ => by simp [splitLead]⟩
              · exact ⟨[], '.' :: d :: rest ++ ['/'], .inr (hbody ('.' :: d :: rest)),
                  fun name _ => by simp [splitLead, hd]⟩
        · exact ⟨[], c :: rest ++ ['/'], .inr (hbody (c :: rest)),
            fun name _ => by simp [splitLead, hroot, hdot]⟩

/-- The parent of an entry is the same for all entries of a directory. -/
theorem parent?_join (base : Path) :
    ∃ parent, ∀ name, IsName name → (base.join ⟨name⟩).parent? = some parent := by
  obtain ⟨start, body, hbody, hsplit⟩ := splitLead_join base
  refine ⟨⟨String.ofList (start ++ (trimReversed (body.reverse.drop 1)).reverse)⟩, ?_⟩
  intro name hname
  have htrim := trimReversed_append hname body.reverse
  have hdrop : (name.toList.reverse ++ body.reverse).dropWhile (· != '/') = body.reverse := by
    rw [List.dropWhile_append_of_pos]
    · rcases hbody with h | ⟨more, h⟩
      · rw [h]
        rfl
      · rw [h]
        rfl
    · intro c hc
      rw [List.mem_reverse] at hc
      simp only [bne_iff_ne, ne_eq]
      rintro rfl
      exact hname.noSlash hc
  rw [parent?, toList_join hname.noSlash, hsplit name hname]
  simp only [List.reverse_append, htrim]
  split
  · rename_i hnil
    simp [hname.notEmpty] at hnil
  · rw [hdrop]

end TerrainMap.Path
