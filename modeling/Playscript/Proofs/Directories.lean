import Playscript.FileSystem
import Playscript.Proofs.Words

/-!
# Directories

Paths as texts and as ways through the file system. A path of proper names is what its text is read
as, so a text that names a script can stand for its path. A way leads through directories; names
other than the double dot lead down from where they start, and each to a place of its own.

* `Path.Proper`, `Path.ofText_toText`: reading the text of a path gives the path.
* `FileSystem.walk`: where names lead, one after the other.
* `FileSystem.walk_eq_append`: names that lead down.
* `FileSystem.locate_parent`: what lies on the way to a place is a directory.
-/

namespace Playscript

namespace Path

/-- The components are names, and none holds a slash. -/
def Proper (p : Path) : Prop := ∀ part ∈ p.parts, isName part = true ∧ '/' ∉ part

theorem proper_ofText (t : Text) : (ofText t).Proper := by
  intro part h
  obtain ⟨hpiece, hname⟩ := List.mem_filter.1 h
  refine ⟨hname, fun hslash => ?_⟩
  have := Text.not_of_mem_splitWhere hpiece hslash
  simp at this

variable {p q : Path}

theorem Proper.parent (h : p.Proper) : p.parent.Proper :=
  fun part hpart => h part (List.dropLast_subset _ hpart)

theorem Proper.join (h : p.Proper) (h' : q.Proper) : (p.join q).Proper := by
  unfold Path.join
  split
  · exact h'
  · intro part hpart
    rcases List.mem_append.1 hpart with hp | hq
    · exact h part hp
    · exact h' part hq

/-- A relative path without components is where paths start. -/
theorem join_of_nil (q : Path) : (⟨.relative, []⟩ : Path).join q = q := by
  obtain ⟨root, parts⟩ := q
  cases root <;> rfl

theorem parent_of_nil {p : Path} (h : p.parts = []) : p.parent = p := by
  obtain ⟨root, parts⟩ := p
  obtain rfl : parts = [] := h
  rfl

theorem Proper.ne_nil (h : p.Proper) {part : Text} (hpart : part ∈ p.parts) : part ≠ [] := by
  rintro rfl
  have := (h _ hpart).1
  simp [isName] at this

/-- The names of a proper path, joined by slashes. -/
def names (p : Path) : Text := ['/'].intercalate p.parts

/-- The names come back from their join, and it does not start with a slash. -/
theorem Proper.names (h : p.Proper) :
    (Text.splitWhere (· == '/') p.names).filter isName = p.parts ∧
      p.names.takeWhile (· == '/') = [] := by
  cases hparts : p.parts with
  | nil => simp [Path.names, hparts, Text.splitWhere, isName]
  | cons part rest =>
    have hmem : part ∈ p.parts := by simp [hparts]
    constructor
    · rw [Path.names, Text.splitWhere_intercalate (by simp [hparts]) fun piece hp => (h piece hp).2,
        List.filter_eq_self.2 fun piece hp => (h piece hp).1, hparts]
    · obtain ⟨c, r, rfl⟩ := List.exists_cons_of_ne_nil (h.ne_nil hmem)
      have hc : (c == '/') = false := by
        rw [beq_eq_false_iff_ne]
        rintro rfl
        exact (h _ hmem).2 (List.mem_cons_self ..)
      have hhead : ∃ more, p.names = c :: more := by
        rw [Path.names, hparts]
        cases rest with
        | nil => exact ⟨r, by simp⟩
        | cons next rest => exact ⟨_, by rw [List.intercalate_cons_cons]; rfl⟩
      obtain ⟨more, hmore⟩ := hhead
      rw [hmore, List.takeWhile_cons_of_neg (by simp [hc])]

/-- **Reading the text of a proper path gives the path.** -/
theorem ofText_toText (h : p.Proper) : ofText p.toText = p := by
  obtain ⟨hparts, hslashes⟩ := h.names
  obtain ⟨root, parts⟩ := p
  have hcut : ∀ t : Text, (Text.splitWhere (· == '/') ('/' :: t)).filter isName =
      (Text.splitWhere (· == '/') t).filter isName := fun t => by simp [Text.splitWhere, isName]
  cases root with
  | relative =>
    by_cases hnil : parts = []
    · subst hnil
      decide
    · have htext : toText ⟨.relative, parts⟩ = Path.names ⟨.relative, parts⟩ := by
        simp [toText, hnil, Path.names]
      rw [htext, ofText, hparts, rootOf, hslashes]
      rfl
  | slash =>
    show ofText ('/' :: Path.names ⟨.slash, parts⟩) = _
    rw [ofText, hcut, hparts, rootOf, List.takeWhile_cons_of_pos (by decide), hslashes]
    rfl
  | twoSlashes =>
    show ofText ('/' :: '/' :: Path.names ⟨.twoSlashes, parts⟩) = _
    rw [ofText, hcut, hcut, hparts, rootOf, List.takeWhile_cons_of_pos (by decide),
      List.takeWhile_cons_of_pos (by decide), hslashes]
    rfl

theorem names_parent_prefix (p : Path) : p.parent.names <+: p.names := by
  have hprefix : ∀ firsts rest : List Text,
      ['/'].intercalate firsts <+: ['/'].intercalate (firsts ++ rest) := by
    intro firsts rest
    induction firsts with
    | nil => exact List.nil_prefix
    | cons a firsts ih =>
      cases firsts with
      | nil =>
        cases rest with
        | nil => exact List.prefix_refl _
        | cons b rest =>
          rw [List.intercalate_singleton, List.singleton_append, List.intercalate_cons_cons,
            List.append_assoc]
          exact List.prefix_append ..
      | cons b firsts =>
        rw [List.cons_append, List.cons_append, List.intercalate_cons_cons,
          List.intercalate_cons_cons]
        exact (List.prefix_append_right_inj _).2 ih
  obtain ⟨last, hlast⟩ := List.dropLast_prefix p.parts
  rw [names, names, ← hlast]
  exact hprefix ..

theorem length_encode_le {t u : Text} (h : t <+: u) :
    (Utf8.encode t).length ≤ (Utf8.encode u).length := by
  obtain ⟨more, rfl⟩ := h
  simp [Utf8.encode, List.flatMap_append]

theorem length_encode_pos {t : Text} (h : t ≠ []) : 0 < (Utf8.encode t).length := by
  obtain ⟨c, r, rfl⟩ := List.exists_cons_of_ne_nil h
  have hchar : 0 < (Utf8.encodeChar c).length := by
    unfold Utf8.encodeChar
    dsimp only
    split_ifs <;> simp
  rw [Utf8.encode, List.flatMap_cons, List.length_append]
  omega

/-- The parent of a proper path takes no more bytes. Its text is a part of that of the path, unless
it is the lone dot. -/
theorem length_encode_parent_le (h : p.Proper) (hne : p.parts ≠ []) :
    (Utf8.encode p.parent.toText).length ≤ (Utf8.encode p.toText).length := by
  have hnames := p.names_parent_prefix
  have hnonempty : p.names ≠ [] := by
    intro hnil
    have hparts := h.names.1
    rw [hnil] at hparts
    exact hne hparts.symm
  obtain ⟨root, parts⟩ := p
  cases root with
  | relative =>
    have htext : toText ⟨.relative, parts⟩ = Path.names ⟨.relative, parts⟩ := by
      simpa [toText, Path.names] using fun hnil => absurd hnil hne
    rw [htext]
    by_cases hnil : parts.dropLast = []
    · have hdot : (parent ⟨.relative, parts⟩).toText = ['.'] := by simp [toText, parent, hnil]
      rw [hdot]
      exact length_encode_pos hnonempty
    · have hparent : (parent ⟨.relative, parts⟩).toText =
          Path.names (parent ⟨.relative, parts⟩) := by
        simp [toText, parent, Path.names, hnil]
      rw [hparent]
      exact length_encode_le hnames
  | slash => exact length_encode_le ((List.prefix_cons_inj '/').2 hnames)
  | twoSlashes =>
    exact length_encode_le ((List.prefix_cons_inj '/').2 ((List.prefix_cons_inj '/').2 hnames))

end Path

namespace FileSystem

variable {fs : FileSystem} {path : Path} {base place : Place} {names later : List Text}

/-- The name that leads up. -/
def dots : Text := ['.', '.']

/-- Where names lead from a place, one after the other. -/
def walk (fs : FileSystem) (base : Place) (names : List Text) : Except Refusal Place :=
  names.foldlM fs.enter base

theorem locate_eq_ok_iff : fs.locate path = .ok place ↔
    (Utf8.encode path.toText).length ≤ longestPath ∧
      fs.walk (fs.start path) path.parts = .ok place := by
  unfold locate
  split
  · rename_i hlong
    simp [Nat.not_le.2 hlong]
  · rename_i hshort
    simp [Nat.not_lt.1 hshort, walk]

theorem walk_append_eq_ok_iff : fs.walk base (names ++ later) = .ok place ↔
    ∃ next, fs.walk base names = .ok next ∧ fs.walk next later = .ok place := by
  rw [walk, List.foldlM_append, ← walk]
  cases fs.walk base names with
  | error why => simp [bind, Except.bind]
  | ok next => simp [bind, Except.bind, walk]

/-- A name leads on from a directory only, and down unless it is the double dot. -/
theorem enter_eq_ok {name : Text} (h : fs.enter base name = .ok place) :
    fs.entry? base = some .directory ∧ (name ≠ dots → place = base ++ [name]) := by
  unfold enter at h
  rcases hentry : fs.entry? base with _ | ⟨found⟩ | _
  · simp [hentry] at h
  · simp [hentry] at h
  · refine ⟨rfl, fun hname => ?_⟩
    simp only [hentry] at h
    split at h
    · cases h
    · rw [if_neg (show name ≠ ['.', '.'] from hname)] at h
      split at h
      · cases h
      · exact (Except.ok.inj h).symm

/-- Names that lead down lead to the place that they name. -/
theorem walk_eq_append (h : dots ∉ names) (hw : fs.walk base names = .ok place) :
    place = base ++ names := by
  induction names generalizing base with
  | nil => simpa [walk, pure, Except.pure] using (Except.ok.inj hw).symm
  | cons name names ih =>
    obtain ⟨next, hfirst, hlater⟩ := walk_append_eq_ok_iff.1
      (show fs.walk base ([name] ++ names) = .ok place from hw)
    have henter : fs.enter base name = .ok next := by
      simpa [walk] using hfirst
    simp only [List.mem_cons, not_or] at h
    rw [ih h.2 hlater, (enter_eq_ok henter).2 (Ne.symm h.1), List.append_assoc]
    rfl

/-- What lies on the way to a place is a directory. -/
theorem locate_parent (hp : path.Proper) (hne : path.parts ≠ []) (h : fs.locate path = .ok place) :
    ∃ dir, fs.locate path.parent = .ok dir ∧ fs.entry? dir = some .directory := by
  obtain ⟨hshort, hwalk⟩ := locate_eq_ok_iff.1 h
  rw [← List.dropLast_concat_getLast hne] at hwalk
  obtain ⟨dir, hdir, hlast⟩ := walk_append_eq_ok_iff.1 hwalk
  have henter : fs.enter dir (path.parts.getLast hne) = .ok place := by
    simpa [walk] using hlast
  exact ⟨dir, locate_eq_ok_iff.2 ⟨(Path.length_encode_parent_le hp hne).trans hshort, hdir⟩,
    (enter_eq_ok henter).1⟩

end FileSystem

end Playscript
