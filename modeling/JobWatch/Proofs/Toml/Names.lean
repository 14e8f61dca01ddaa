import JobWatch.Proofs.Lookup
import JobWatch.Proofs.Text.Parser
import JobWatch.Toml.Document
import Mathlib.Data.List.Basic
import Mathlib.Data.List.Nodup

/-!
# Names in a document

No table of a document holds a name twice, however its entries are written. Every step of the
reading keeps this.
-/

set_option autoImplicit false

namespace JobWatch

def SettingValue.IsScalar : SettingValue → Prop
  | list _ => False
  | table _ => False
  | _ => True

inductive SettingValue.Distinct : SettingValue → Prop
  | scalar {v : SettingValue} (h : v.IsScalar) : Distinct v
  | list {items : List SettingValue} (h : ∀ v ∈ items, v.Distinct) : Distinct (list items)
  | table {entries : List (String × SettingValue)} (names : (entries.map Prod.fst).Nodup)
      (values : ∀ entry ∈ entries, entry.2.Distinct) : Distinct (table entries)

theorem SettingValue.table_distinct_iff {entries : List (String × SettingValue)} :
    (table entries).Distinct ↔
      (entries.map Prod.fst).Nodup ∧ ∀ entry ∈ entries, entry.2.Distinct := by
  constructor
  · intro h
    cases h with
    | scalar h => cases h
    | table names values => exact ⟨names, values⟩
  · exact fun h => .table h.1 h.2

namespace Toml

open JobWatch.Text JobWatch.Text.Parser

inductive Node.Distinct : Node → Prop
  | value {v : SettingValue} (h : v.IsScalar) : Distinct (value v)
  | array {items : List Node} (h : ∀ node ∈ items, node.Distinct) : Distinct (array items)
  | table {origin : Origin} {entries : List (String × Node)}
      (names : (entries.map Prod.fst).Nodup) (nodes : ∀ entry ∈ entries, entry.2.Distinct) :
      Distinct (table origin entries)
  | tables {items : List (List (String × Node))}
      (names : ∀ entries ∈ items, (entries.map Prod.fst).Nodup)
      (nodes : ∀ entries ∈ items, ∀ entry ∈ entries, entry.2.Distinct) : Distinct (tables items)

structure Entries.Distinct (entries : Entries) : Prop where
  names : (entries.map Prod.fst).Nodup
  nodes : ∀ entry ∈ entries, entry.2.Distinct

theorem entries_distinct_nil : Entries.Distinct [] := ⟨List.nodup_nil, by simp⟩

theorem entries_distinct_cons_iff {name : String} {node : Node} {rest : Entries} :
    Entries.Distinct ((name, node) :: rest) ↔
      name ∉ rest.map Prod.fst ∧ node.Distinct ∧ Entries.Distinct rest := by
  constructor
  · rintro ⟨hnames, hnodes⟩
    obtain ⟨hnew, hrest⟩ := List.nodup_cons.mp hnames
    obtain ⟨hnode, hnodes⟩ := List.forall_mem_cons.mp hnodes
    exact ⟨hnew, hnode, hrest, hnodes⟩
  · rintro ⟨hnew, hnode, hrest⟩
    exact ⟨List.nodup_cons.mpr ⟨hnew, hrest.names⟩, List.forall_mem_cons.mpr ⟨hnode, hrest.nodes⟩⟩

theorem table_distinct_iff {origin : Origin} {entries : Entries} :
    (Node.table origin entries).Distinct ↔ Entries.Distinct entries :=
  ⟨fun h => by cases h with | table names nodes => exact ⟨names, nodes⟩, fun h => .table h.1 h.2⟩

theorem tables_distinct_iff {items : List Entries} :
    (Node.tables items).Distinct ↔ ∀ entries ∈ items, Entries.Distinct entries := by
  constructor
  · intro h
    cases h with
    | tables names nodes => exact fun entries hmem => ⟨names entries hmem, nodes entries hmem⟩
  · exact fun h => .tables (fun entries hmem => (h entries hmem).names)
      fun entries hmem => (h entries hmem).nodes

/-- A change of what stands under a name keeps names distinct if what it puts there has distinct
names. -/
theorem alter_distinct {name : String} {f : Option Node → Option Node}
    (hf : ∀ below above, (∀ node ∈ below, node.Distinct) → f below = some above → above.Distinct)
    {entries altered : Entries} (h : Entries.Distinct entries)
    (halter : alter name f entries = some altered) :
    Entries.Distinct altered ∧ ∀ n ∈ altered.map Prod.fst, n = name ∨ n ∈ entries.map Prod.fst := by
  -- The names are carried along so that the name in front of a changed rest is still new.
  induction entries generalizing altered with
  | nil =>
    obtain ⟨node, hnode, rfl⟩ := Option.map_eq_some_iff.mp halter
    have hdistinct := hf none node (by simp) hnode
    exact ⟨entries_distinct_cons_iff.mpr ⟨by simp, hdistinct, entries_distinct_nil⟩, by simp⟩
  | cons entry rest ih =>
    obtain ⟨known, node⟩ := entry
    obtain ⟨hnew, hnode, hrest⟩ := entries_distinct_cons_iff.mp h
    rw [alter] at halter
    by_cases hknown : known = name
    · rw [if_pos hknown] at halter
      obtain ⟨above, habove, rfl⟩ := Option.map_eq_some_iff.mp halter
      have hdistinct := hf (some node) above (by simpa using hnode) habove
      refine ⟨entries_distinct_cons_iff.mpr ⟨hknown ▸ hnew, hdistinct, hrest⟩, ?_⟩
      simp only [List.map_cons, List.mem_cons]
      rintro n (hn | hn)
      · exact .inl hn
      · exact .inr (.inr hn)
    · rw [if_neg hknown] at halter
      obtain ⟨above, habove, rfl⟩ := Option.map_eq_some_iff.mp halter
      obtain ⟨habove, hnames⟩ := ih hrest habove
      refine ⟨entries_distinct_cons_iff.mpr ⟨?_, hnode, habove⟩, ?_⟩
      · intro hmem
        exact (hnames known hmem).elim hknown hnew
      · simp only [List.map_cons, List.mem_cons]
        rintro n (hn | hn)
        · exact .inr (.inl hn)
        · exact (hnames n hn).imp_right .inr

theorem fresh_distinct {new above : Node} (hnew : new.Distinct) {below : Option Node}
    (h : fresh new below = some above) : above.Distinct := by
  cases below with
  | none =>
    cases h
    exact hnew
  | some node => cases h

theorem map_table_distinct {origin : Origin} {made : Option Entries} {above : Node}
    (hmade : ∀ entries, made = some entries → Entries.Distinct entries)
    (h : made.map (.table origin) = some above) : above.Distinct := by
  obtain ⟨entries, hentries, rfl⟩ := Option.map_eq_some_iff.mp h
  exact table_distinct_iff.mpr (hmade entries hentries)

theorem map_tables_distinct {earlier : List Entries} {last : Entries} {made : Option Entries}
    {above : Node} (hbelow : (Node.tables (last :: earlier)).Distinct)
    (hmade : ∀ entries, made = some entries → Entries.Distinct entries)
    (h : (made.map fun last => Node.tables (last :: earlier)) = some above) : above.Distinct := by
  obtain ⟨entries, hentries, rfl⟩ := Option.map_eq_some_iff.mp h
  rw [tables_distinct_iff, List.forall_mem_cons] at hbelow ⊢
  exact ⟨hmade entries hentries, hbelow.2⟩

theorem put_distinct {new : Node} (hnew : new.Distinct) {path : List String}
    {entries altered : Entries} (h : Entries.Distinct entries)
    (hput : put new path entries = some altered) : Entries.Distinct altered := by
  induction path generalizing entries altered with
  | nil => cases hput
  | cons name path ih =>
    cases path with
    | nil => exact (alter_distinct (fun _ _ _ hfresh => fresh_distinct hnew hfresh) h hput).1
    | cons next path =>
      refine (alter_distinct ?_ h hput).1
      intro below above hbelow habove
      have hinner : ∀ {origin inner}, below = some (.table origin inner) →
          Entries.Distinct inner := fun hsome => table_distinct_iff.mp (hbelow _ hsome)
      split at habove
      · exact map_table_distinct (fun _ => ih entries_distinct_nil) habove
      · exact map_table_distinct (fun _ => ih (hinner rfl)) habove
      · split at habove
        · cases habove
        · exact map_table_distinct (fun _ => ih (hinner rfl)) habove
      · split at habove
        · cases habove
        · have htables := hbelow _ rfl
          exact map_tables_distinct htables
            (fun _ => ih (tables_distinct_iff.mp htables _ List.mem_cons_self)) habove
      · cases habove

theorem within_distinct {f : Entries → Option Entries}
    (hf : ∀ entries altered, Entries.Distinct entries → f entries = some altered →
      Entries.Distinct altered) {path : List String} {entries altered : Entries}
    (h : Entries.Distinct entries) (hwithin : within f path entries = some altered) :
    Entries.Distinct altered := by
  induction path generalizing entries altered with
  | nil => exact hf entries altered h hwithin
  | cons name path ih =>
    refine (alter_distinct ?_ h hwithin).1
    intro below above hbelow habove
    split at habove
    · exact map_table_distinct (fun _ => ih entries_distinct_nil) habove
    · cases habove
    · exact map_table_distinct (fun _ => ih (table_distinct_iff.mp (hbelow _ rfl))) habove
    · have htables := hbelow _ rfl
      exact map_tables_distinct htables
        (fun _ => ih (tables_distinct_iff.mp htables _ List.mem_cons_self)) habove
    · cases habove

theorem entries_distinct_concat {name : String} {node : Node} {entries : Entries}
    (h : Entries.Distinct entries) (hnew : name ∉ entries.map Prod.fst) (hnode : node.Distinct) :
    Entries.Distinct (entries ++ [(name, node)]) := by
  refine ⟨?_, ?_⟩
  · rw [List.map_append, List.nodup_append]
    refine ⟨h.names, by simp, ?_⟩
    intro n hn m hm hsame
    have hname : m = name := by simpa using hm
    exact hnew (hname ▸ hsame ▸ hn)
  · intro entry hentry
    rcases List.mem_append.mp hentry with hold | hlast
    · exact h.nodes entry hold
    · exact List.mem_singleton.mp hlast ▸ hnode

theorem openTable_distinct {name : String} {entries altered : Entries}
    (h : Entries.Distinct entries) (hopen : openTable name entries = some altered) :
    Entries.Distinct altered := by
  unfold openTable at hopen
  split at hopen
  next hnone =>
    cases hopen
    exact entries_distinct_concat h (lookup_eq_none_iff_names.mp hnone)
      (table_distinct_iff.mpr entries_distinct_nil)
  next inner hsome =>
    cases hopen
    have hinner := table_distinct_iff.mp (h.nodes _ (mem_of_lookup hsome))
    refine entries_distinct_concat ⟨?_, ?_⟩ (by simp) (table_distinct_iff.mpr hinner)
    · exact h.names.sublist (List.filter_sublist.map Prod.fst)
    · exact fun entry hentry => h.nodes entry (List.mem_filter.mp hentry).1
  next => cases hopen

theorem openItem_distinct {name : String} {entries altered : Entries}
    (h : Entries.Distinct entries) (hopen : openItem name entries = some altered) :
    Entries.Distinct altered := by
  refine (alter_distinct ?_ h hopen).1
  intro below above hbelow habove
  split at habove
  · cases habove
    exact tables_distinct_iff.mpr (by simp [entries_distinct_nil])
  · cases habove
    have htables := tables_distinct_iff.mp (hbelow _ rfl)
    exact tables_distinct_iff.mpr (List.forall_mem_cons.mpr ⟨entries_distinct_nil, htables⟩)
  · cases habove

/-! ### What is read -/

def Statement.Distinct : Statement → Prop
  | assign _ node => node.Distinct
  | _ => True

theorem step_distinct {r next : Reading} {line : Statement} (hline : line.Distinct)
    (h : Entries.Distinct r.entries) (hstep : r.step? line = some next) :
    Entries.Distinct next.entries := by
  cases line with
  | blank =>
    cases hstep
    exact h
  | assign path node =>
    obtain ⟨entries, hentries, rfl⟩ := Option.map_eq_some_iff.mp hstep
    exact within_distinct (fun _ _ => put_distinct hline) h hentries
  | header path =>
    simp only [Reading.step?, bind, Option.bind_eq_some_iff, Option.some.injEq] at hstep
    obtain ⟨name, -, entries, hentries, rfl⟩ := hstep
    exact within_distinct (fun _ _ => openTable_distinct) h hentries
  | arrayHeader path =>
    simp only [Reading.step?, bind, Option.bind_eq_some_iff, Option.some.injEq] at hstep
    obtain ⟨name, -, entries, hentries, rfl⟩ := hstep
    exact within_distinct (fun _ _ => openItem_distinct) h hentries

theorem foldlM_keeps {α β : Type} {I : β → Prop} {Q : α → Prop} {f : β → α → Option β}
    (hf : ∀ b a next, I b → Q a → f b a = some next → I next) {steps : List α}
    (hsteps : ∀ a ∈ steps, Q a) {b last : β} (hb : I b) (h : steps.foldlM f b = some last) :
    I last := by
  induction steps generalizing b with
  | nil =>
    cases h
    exact hb
  | cons a steps ih =>
    obtain ⟨ha, hsteps⟩ := List.forall_mem_cons.mp hsteps
    rw [List.foldlM_cons] at h
    obtain ⟨next, hnext, h⟩ := Option.bind_eq_some_iff.mp h
    exact ih hsteps (hf b a next hb ha hnext) h

theorem bracedTable?_distinct {pairs : List (List String × Node)}
    (hpairs : ∀ pair ∈ pairs, pair.2.Distinct) :
    ∀ node ∈ bracedTable? pairs, node.Distinct := by
  intro node hnode
  refine map_table_distinct (fun entries hentries => ?_) hnode
  exact foldlM_keeps (Q := fun pair : List String × Node => pair.2.Distinct)
    (fun _ _ _ h hpair => put_distinct hpair h) hpairs entries_distinct_nil hentries

theorem yields_number : Yields number SettingValue.IsScalar := by
  have hdecimal : Yields decimal SettingValue.IsScalar :=
    yields_after fun _ => yields_after fun _ => yields_after fun _ => yields_after fun _ =>
      yields_ite yields_failure (yields_ite yields_failure (yields_pure trivial))
  have hnamed : Yields namedReal SettingValue.IsScalar :=
    yields_after fun _ => yields_orElse (yields_after fun _ => yields_pure trivial)
      (yields_after fun _ => yields_pure trivial)
  have hbased : Yields based SettingValue.IsScalar :=
    yields_after fun _ => yields_after fun _ => yields_after fun _ =>
      yields_ite (yields_pure trivial) yields_failure
  have hinteger : Yields integer SettingValue.IsScalar :=
    yields_after fun _ => yields_after fun _ => yields_ite (yields_pure trivial) yields_failure
  exact yields_orElse hdecimal (yields_orElse hnamed (yields_orElse hbased hinteger))

theorem yields_scalar : Yields scalar SettingValue.IsScalar := by
  have htext : Yields (do let s ← string; pure (.text s)) SettingValue.IsScalar :=
    yields_after fun _ => yields_pure trivial
  have hmoment : Yields dateTime SettingValue.IsScalar :=
    yields_after fun _ => yields_pure trivial
  have hboolean : Yields boolean SettingValue.IsScalar :=
    yields_orElse (yields_after fun _ => yields_pure trivial)
      (yields_after fun _ => yields_pure trivial)
  exact yields_orElse htext (yields_orElse hmoment (yields_orElse yields_number hboolean))

theorem yields_scalarNode : Yields scalarNode Node.Distinct :=
  yields_bind yields_scalar fun _ hv => yields_pure (.value hv)

theorem forall_mem_getD {α : Type} {Q : α → Prop} {found : Option (List α)}
    (h : ∀ l ∈ found, ∀ a ∈ l, Q a) : ∀ a ∈ found.getD [], Q a := by
  cases found with
  | none => simp
  | some l => exact h l rfl

theorem yields_arrayOf {item : Parser Node} (hitem : Yields item Node.Distinct) :
    Yields (arrayOf item) Node.Distinct := by
  have hone : Yields (do let node ← item; trivia; pure node) Node.Distinct :=
    yields_bind hitem fun _ hnode => yields_after fun _ => yields_pure hnode
  have hitems : Yields (do
      let items ← sepBy1 (do let node ← item; trivia; pure node) (do char ','; trivia)
      let _ ← maybe (char ',')
      trivia
      pure items) fun items => ∀ node ∈ items, node.Distinct :=
    yields_bind (yields_sepBy1 hone) fun _ hfound =>
      yields_after fun _ => yields_after fun _ => yields_pure hfound
  exact yields_after fun _ => yields_after fun _ => yields_bind (yields_maybe hitems) fun _ hfound =>
    yields_after fun _ => yields_pure (.array (forall_mem_getD hfound))

theorem yields_tableOf {item : Parser Node} (hitem : Yields item Node.Distinct) :
    Yields (tableOf item) Node.Distinct := by
  have hpair : Yields (do
      let path ← key
      char '='
      blanks
      let node ← item
      blanks
      pure (path, node)) fun pair : List String × Node => pair.2.Distinct :=
    yields_after fun _ => yields_after fun _ => yields_after fun _ =>
      yields_bind hitem fun _ hnode => yields_after fun _ => yields_pure hnode
  exact yields_after fun _ => yields_after fun _ =>
    yields_bind (yields_maybe (yields_sepBy1 hpair)) fun _ hfound =>
      yields_after fun _ => yields_ofOption (bracedTable?_distinct (forall_mem_getD hfound))

theorem yields_value (depth : Nat) : Yields (value depth) Node.Distinct := by
  induction depth with
  | zero => exact yields_scalarNode
  | succ depth ih =>
    exact yields_orElse yields_scalarNode (yields_orElse (yields_arrayOf ih) (yields_tableOf ih))

theorem yields_statement : Yields statement Statement.Distinct := by
  have hassign : Yields (do
      let path ← key
      char '='
      blanks
      let node ← value (depthLimit - 1)
      pure (.assign path node)) Statement.Distinct :=
    yields_after fun _ => yields_after fun _ => yields_after fun _ =>
      yields_bind (yields_value _) fun _ hnode => yields_pure hnode
  have hheader : ∀ (kind : List String → Statement) (opening closing : Parser Unit),
      (∀ path, (kind path).Distinct) →
      Yields (do opening; let path ← key; closing; pure (kind path)) Statement.Distinct :=
    fun _ _ _ hkind => yields_after fun _ => yields_after fun path => yields_after fun _ =>
      yields_pure (hkind path)
  have hblank : Yields (pure Statement.blank) Statement.Distinct := yields_pure trivial
  have hline := yields_orElse (hheader .arrayHeader (chars ['[', '[']) (chars [']', ']'])
    fun _ => trivial) (yields_orElse (hheader .header (char '[') (char ']') fun _ => trivial)
      (yields_orElse hassign hblank))
  exact yields_after fun _ => yields_bind hline fun _ hread =>
    yields_after fun _ => yields_after fun _ => yields_pure hread

theorem yields_statements : Yields statements fun lines => ∀ line ∈ lines, line.Distinct :=
  yields_after fun _ => yields_bind yields_statement fun _ hfirst =>
    yields_bind (yields_many (yields_after fun _ => yields_statement)) fun _ hmore =>
      yields_pure (List.forall_mem_cons.mpr ⟨hfirst, hmore⟩)

/-! ### What it stands for -/

theorem isScalar_of_momentValue? {v moment : SettingValue} (h : momentValue? v = some moment) :
    moment.IsScalar := by
  unfold momentValue? at h
  split at h
  · obtain ⟨s, -, rfl⟩ := Option.map_eq_some_iff.mp h
    exact trivial
  · cases h

mutual

theorem node_toValue?_distinct {node : Node} (h : node.Distinct) {v : SettingValue}
    (hv : node.toValue? = some v) : v.Distinct := by
  cases node with
  | value w =>
    cases hv
    cases h with
    | value hscalar => exact .scalar hscalar
  | array items =>
    obtain ⟨values, hvalues, rfl⟩ := Option.map_eq_some_iff.mp hv
    cases h with
    | array hitems => exact .list (nodesValue?_distinct hitems hvalues)
  | table origin entries => exact tableValue?_distinct (table_distinct_iff.mp h) hv
  | tables items =>
    obtain ⟨values, hvalues, rfl⟩ := Option.map_eq_some_iff.mp hv
    have hdistinct := itemsValue?_distinct (tables_distinct_iff.mp h) hvalues
    exact .list fun w hw => hdistinct w (List.mem_reverse.mp hw)

theorem nodesValue?_distinct {nodes : List Node} (h : ∀ node ∈ nodes, node.Distinct)
    {values : List SettingValue} (hvalues : nodesValue? nodes = some values) :
    ∀ v ∈ values, v.Distinct := by
  cases nodes with
  | nil =>
    cases hvalues
    simp
  | cons node rest =>
    obtain ⟨hnode, hrest⟩ := List.forall_mem_cons.mp h
    simp only [nodesValue?, bind, Option.bind_eq_some_iff, Option.some.injEq] at hvalues
    obtain ⟨v, hv, more, hmore, rfl⟩ := hvalues
    exact List.forall_mem_cons.mpr
      ⟨node_toValue?_distinct hnode hv, nodesValue?_distinct hrest hmore⟩

theorem tableValue?_distinct {entries : List (String × Node)} (h : Entries.Distinct entries)
    {v : SettingValue} (hv : tableValue? entries = some v) : v.Distinct := by
  cases entries with
  | nil =>
    cases hv
    exact .table List.nodup_nil (by simp)
  | cons entry rest =>
    obtain ⟨name, node⟩ := entry
    obtain ⟨hnew, hnode, hrest⟩ := entries_distinct_cons_iff.mp h
    simp only [tableValue?, bind, Option.bind_eq_some_iff] at hv
    obtain ⟨first, hfirst, hv⟩ := hv
    split at hv
    · exact .scalar (isScalar_of_momentValue? hv)
    · obtain ⟨more, hmore, hsame⟩ := Option.bind_eq_some_iff.mp hv
      cases hsame
      obtain ⟨hnames, hvalues⟩ := entriesValue?_distinct hrest hmore
      refine .table ?_ (List.forall_mem_cons.mpr ⟨node_toValue?_distinct hnode hfirst, hvalues⟩)
      rw [List.map_cons, hnames]
      exact List.nodup_cons.mpr ⟨hnew, hrest.names⟩

theorem entriesValue?_distinct {entries : List (String × Node)} (h : Entries.Distinct entries)
    {values : List (String × SettingValue)} (hvalues : entriesValue? entries = some values) :
    values.map Prod.fst = entries.map Prod.fst ∧ ∀ entry ∈ values, entry.2.Distinct := by
  cases entries with
  | nil =>
    cases hvalues
    simp
  | cons entry rest =>
    obtain ⟨name, node⟩ := entry
    obtain ⟨-, hnode, hrest⟩ := entries_distinct_cons_iff.mp h
    simp only [entriesValue?, bind, Option.bind_eq_some_iff, Option.some.injEq] at hvalues
    obtain ⟨v, hv, more, hmore, rfl⟩ := hvalues
    obtain ⟨hnames, hdistinct⟩ := entriesValue?_distinct hrest hmore
    refine ⟨by rw [List.map_cons, List.map_cons, hnames], ?_⟩
    exact List.forall_mem_cons.mpr ⟨node_toValue?_distinct hnode hv, hdistinct⟩

theorem itemsValue?_distinct {items : List (List (String × Node))}
    (h : ∀ entries ∈ items, Entries.Distinct entries) {values : List SettingValue}
    (hvalues : itemsValue? items = some values) : ∀ v ∈ values, v.Distinct := by
  cases items with
  | nil =>
    cases hvalues
    simp
  | cons entries rest =>
    obtain ⟨hentries, hrest⟩ := List.forall_mem_cons.mp h
    simp only [itemsValue?, bind, Option.bind_eq_some_iff, Option.some.injEq] at hvalues
    obtain ⟨v, hv, more, hmore, rfl⟩ := hvalues
    exact List.forall_mem_cons.mpr
      ⟨tableValue?_distinct hentries hv, itemsValue?_distinct hrest hmore⟩

end

/-- A document that is read holds no name twice in any of its tables. -/
theorem parse?_distinct {text : String} {entries : List (String × SettingValue)}
    (h : parse? text = some entries) : (SettingValue.table entries).Distinct := by
  simp only [parse?, bind, Option.bind_eq_some_iff] at h
  obtain ⟨lines, hlines, r, hr, v, hv, hentries⟩ := h
  have hstep : ∀ (r : Reading) (line : Statement) (next : Reading), Entries.Distinct r.entries →
      line.Distinct → r.step? line = some next → Entries.Distinct next.entries :=
    fun _ _ _ h hline => step_distinct hline h
  have hread := foldlM_keeps hstep (of_whole? yields_statements hlines) entries_distinct_nil hr
  have hvalue := tableValue?_distinct hread hv
  split at hentries
  · cases hentries
    exact hvalue
  · cases hentries

end Toml

end JobWatch
