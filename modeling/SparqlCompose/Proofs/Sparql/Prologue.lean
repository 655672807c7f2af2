import SparqlCompose.Proofs.PrefixTable
import SparqlCompose.Proofs.Sparql.Group
import SparqlCompose.Sparql.Request

/-!
# Declarations are read back

Each `PREFIX` line adds a prefix to the scope, so the scope after all lines has the prefixes in
reverse order (`Parser.exec_declarations`).  In this scope the reader knows every IRI that the
text writes (`knows_of_declared`): the prefix of a compacted IRI is declared, and it is declared for
the namespace of the IRI.
-/

namespace SparqlCompose.Sparql

variable {t : PrefixTable} {s : Scope} {cs rest : List Char}

/-- A declaration that the reader can read. -/
def Declarable (e : String × String) : Prop :=
  isPrefixName e.1.toList = true ∧ Iri.isAbsolute e.2 = true

/-- The scope after the declarations. -/
def Scope.declaring (s : Scope) (pairs : List (String × String)) : Scope :=
  { s with prefixes := pairs.reverse ++ s.prefixes }

namespace Parser

/-- The line of a prefix, character by character. -/
theorem toList_prefixLine (e : String × String) :
    (Query.prefixLine e).toList =
      "PREFIX".toList ++
        ' ' :: (e.1.toList ++ ':' :: ' ' :: '<' :: (e.2.toList ++ ['>', '\n'])) := by
  have hparts : "PREFIX ".toList = "PREFIX".toList ++ [' '] ∧ ": <".toList = [':', ' ', '<'] ∧
      ">\n".toList = ['>', '\n'] := by decide
  simp [Query.prefixLine, hparts]

/-- No white space stands before a prefix. -/
theorem strip_prefixName {name : String} (h : isPrefixName name.toList = true) (rest : List Char) :
    strip (name.toList ++ ':' :: rest) = name.toList ++ ':' :: rest := by
  have hhead := head_prefixName h rest
  cases hcs : name.toList ++ ':' :: rest with
  | nil => rfl
  | cons c cs =>
      rw [hcs] at hhead
      have hopening : isOpening c = true := by
        rcases hhead c rfl with rfl | hc
        · rfl
        · simp [isOpening, hc]
      exact strip_opening hopening cs

/-- A `PREFIX` line is read up to its end, and its prefix is declared. -/
theorem exec_declaration (hbase : s.base = none) {e : String × String} (he : Declarable e)
    (rest : List Char) :
    (spaced declaration).exec ((Query.prefixLine e).toList ++ rest) s =
      (some ((), strip rest), s.declaring [e]) := by
  have hword : "PREFIX".toList = ['P', 'R', 'E', 'F', 'I', 'X'] := by decide
  have hbaseWord : Refuses (word "BASE") s ((Query.prefixLine e).toList ++ rest) := by
    refine refuses_word (c := 'B') (by decide) ?_
    rw [toList_prefixLine, hword]
    intro d hd
    obtain rfl := Option.some.inj hd
    decide
  have hstart :
      strip (' ' :: (e.1.toList ++ ':' :: ' ' :: '<' :: (e.2.toList ++ '>' :: '\n' :: rest))) =
      e.1.toList ++ ':' :: ' ' :: '<' :: (e.2.toList ++ '>' :: '\n' :: rest) := by
    rw [strip_space, strip_prefixName he.1]
  have hprefixWord : Reads (word "PREFIX") s ((Query.prefixLine e).toList ++ rest) ()
      (e.1.toList ++ ':' :: ' ' :: '<' :: (e.2.toList ++ '>' :: '\n' :: rest)) := by
    have hread := reads_word (s := s) "PREFIX" (by decide) hstart
    simpa [toList_prefixLine] using hread
  have hname : Reads (liftM prefixName) s
      (e.1.toList ++ ':' :: ' ' :: '<' :: (e.2.toList ++ '>' :: '\n' :: rest)) e.1
      (' ' :: '<' :: (e.2.toList ++ '>' :: '\n' :: rest)) := .lift (prefixName_append he.1)
  have hopen : strip (' ' :: '<' :: (e.2.toList ++ '>' :: '\n' :: rest)) =
      '<' :: (e.2.toList ++ '>' :: '\n' :: rest) := by
    rw [strip_space]
    exact strip_cons rfl (by decide)
  have hspace : Reads space s (' ' :: '<' :: (e.2.toList ++ '>' :: '\n' :: rest)) ()
      ('<' :: (e.2.toList ++ '>' :: '\n' :: rest)) := reads_space_to hopen
  have hiri : Reads iriRef s ('<' :: (e.2.toList ++ '>' :: '\n' :: rest)) e.2 ('\n' :: rest) :=
    reads_iriRef hbase he.2
  have hline : declaration.exec ((Query.prefixLine e).toList ++ rest) s =
      (some ((), '\n' :: rest), s.declaring [e]) := by
    unfold declaration
    rw [exec_orElse_of_none (hbaseWord.bind), exec_bind_of_some hprefixWord,
      exec_bind_of_some hname, exec_bind_of_some hspace, exec_bind_of_some hiri]
    rfl
  unfold spaced
  rw [exec_bind_of_some hline, exec_bind_of_some reads_space, strip_newline]
  rfl

/-- White space does not lead the lines before a query, if it does not lead the query. -/
theorem strip_prefixLines (pairs : List (String × String)) (hstrip : strip rest = rest) :
    strip ((pairs.flatMap fun e => (Query.prefixLine e).toList) ++ rest) =
      (pairs.flatMap fun e => (Query.prefixLine e).toList) ++ rest := by
  cases pairs with
  | nil => exact hstrip
  | cons e pairs =>
      have hword : "PREFIX".toList = ['P', 'R', 'E', 'F', 'I', 'X'] := by decide
      rw [List.flatMap_cons, toList_prefixLine, hword]
      exact strip_cons rfl (by decide)

/-- **The lines before a query are read, and their prefixes are declared, the last one first.** -/
theorem exec_declarations (pairs : List (String × String)) (hbase : s.base = none)
    (hpairs : ∀ e ∈ pairs, Declarable e) (hrest : ∀ s, Refuses (spaced declaration) s rest)
    (hstrip : strip rest = rest) {fuel : Nat}
    (hfuel : ((pairs.flatMap fun e => (Query.prefixLine e).toList) ++ rest).length ≤ fuel) :
    (manyUpTo (spaced declaration) fuel).exec
      ((pairs.flatMap fun e => (Query.prefixLine e).toList) ++ rest) s =
      (some (pairs.map fun _ => (), rest), s.declaring pairs) := by
  induction pairs generalizing s fuel with
  | nil =>
      have hall : ReadsAll (spaced declaration) s rest [] rest := .nil (hrest s)
      exact hall.manyUpTo hfuel
  | cons e pairs ih =>
      rw [List.forall_mem_cons] at hpairs
      rw [List.flatMap_cons, List.append_assoc] at hfuel ⊢
      -- a line has characters, so the fuel for the other lines is less
      have hpositive : 0 < (Query.prefixLine e).toList.length := by
        rw [toList_prefixLine]
        simp
      rw [List.length_append] at hfuel
      cases fuel with
      | zero => omega
      | succ fuel =>
          have hfirst := exec_declaration hbase hpairs.1 ((pairs.flatMap fun e =>
            (Query.prefixLine e).toList) ++ rest)
          rw [strip_prefixLines pairs hstrip] at hfirst
          have hleft :
              ((pairs.flatMap fun e => (Query.prefixLine e).toList) ++ rest).length ≤ fuel := by
            omega
          have hlast := ih (s := s.declaring [e]) hbase hpairs.2 hleft
          have hscope : (s.declaring [e]).declaring pairs = s.declaring (e :: pairs) := by
            simp [Scope.declaring]
          rw [hscope] at hlast
          unfold manyUpTo
          rw [exec_orElse_of_some]
          rw [exec_bind_of_some hfirst, exec_bind_of_some hlast]
          rfl

end Parser

/-! ### Known IRIs -/

/-- A prefix is looked up if all its lines agree on its namespace. -/
theorem lookup_of_mem {pairs : List (String × String)} {name ns : String}
    (hmem : ∃ e ∈ pairs, e.1 = name) (hall : ∀ e ∈ pairs, e.1 = name → e.2 = ns) :
    pairs.lookup name = some ns := by
  induction pairs with
  | nil =>
      obtain ⟨e, he, -⟩ := hmem
      cases he
  | cons e pairs ih =>
      obtain ⟨p, m⟩ := e
      rw [List.forall_mem_cons] at hall
      by_cases hp : name = p
      · subst hp
        rw [List.lookup_cons_self]
        exact congrArg some (hall.1 rfl)
      · have hne : (name == p) = false := by simpa using hp
        rw [List.lookup_cons, hne]
        refine ih ?_ hall.2
        obtain ⟨d, hd, hname⟩ := hmem
        rcases List.mem_cons.mp hd with rfl | hd
        · exact absurd hname.symm hp
        · exact ⟨d, hd, hname⟩

/-- **With the prefixes that a text uses declared, the reader knows the IRIs of the text.** -/
theorem knows_of_declared (ht : t.Sound) (hnames : ∀ e ∈ t.toList, isPrefixName e.1.toList = true)
    (hbase : s.base = none) (hempty : s.prefixes = []) {iris : List String} {iri : String}
    (hiri : iri ∈ iris) (habsolute : Iri.isAbsolute iri = true) (hascii : IsAscii iri) :
    Knows t (s.declaring (Query.usedPrefixes t iris)) iri where
  base := hbase
  absolute := habsolute
  written := by
    intro p ns l hp hsplit
    have hns := ht.get?_of_compactingPrefix? hp hsplit
    refine ⟨hnames (p, ns) (OrderedMap.get?_eq_some_iff.mp hns), ?_,
      isPlainLocal_of_compactingPrefix? hascii hp hsplit⟩
    obtain ⟨d, hd, hname⟩ := Query.exists_mem_usedPrefixes hiri hp hns
    have hprefixes : (s.declaring (Query.usedPrefixes t iris)).prefixes =
        (Query.usedPrefixes t iris).reverse := by simp [Scope.declaring, hempty]
    rw [hprefixes]
    refine lookup_of_mem ⟨d, List.mem_reverse.mpr hd, hname⟩ ?_
    intro e he hep
    have hused := Query.mem_usedPrefixes (List.mem_reverse.mp he)
    rw [hep, hns] at hused
    exact (Option.some.inj hused).symm

end SparqlCompose.Sparql
