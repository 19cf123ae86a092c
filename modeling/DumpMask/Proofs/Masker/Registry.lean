import DumpMask.Proofs.Masker.Configured
import DumpMask.Proofs.Masker.Scope
import DumpMask.Proofs.Rules.Names
import Mathlib.Data.List.Nodup
import Mathlib.Data.List.Perm.Basic

/-!
# What a masker keeps of its rules

A masker is built table by table and column by column, and the first rule that describes no transform
stops it. The tables and their columns come in no order of their own. Main statement: a document
configures a masker exactly when its version, its threshold and every rule are in order, the masker
then knows what the rules say and nothing else, and none of this depends on the order in which the
tables and columns are enumerated.
-/

namespace DumpMask

/-! ### The rules of all columns -/

/-- The columns of a table that have a rule. -/
def TableRule.columnRules (table : String) : TableRule → List (ColumnId × FieldRule)
  | .truncate => []
  | .columns rules => rules.map fun entry => (⟨table, entry.1⟩, entry.2)

def TableRule.isTruncate : TableRule → Bool
  | .truncate => true
  | .columns _ => false

/-- The transform of a column by its rule. -/
def FieldRule.buildFor (setting : Setting) (entry : ColumnId × FieldRule) :
    Except Located (ColumnId × Transform) :=
  (entry.1, ·) <$> entry.2.build setting entry.1.column

namespace Rules

def columnRules (tables : List (String × TableRule)) : List (ColumnId × FieldRule) :=
  tables.flatMap fun entry => entry.2.columnRules entry.1

def truncatedTables (tables : List (String × TableRule)) : List String :=
  Assoc.keys (tables.filter (·.2.isTruncate))

/-- What all rules of a document have in common. -/
def setting (rules : Rules) : FieldRule.Setting :=
  ⟨Utf8.encode rules.secret, (rules.threshold.map Threshold.mk).getD .standard⟩

theorem mem_columnRules_iff {tables : List (String × TableRule)} {id : ColumnId}
    {rule : FieldRule} :
    (id, rule) ∈ columnRules tables ↔
      ∃ columns, (id.table, .columns columns) ∈ tables ∧ (id.column, rule) ∈ columns := by
  rw [columnRules, List.mem_flatMap]
  constructor
  · rintro ⟨⟨table, found⟩, htable, hmem⟩
    cases found with
    | truncate => cases hmem
    | columns columns =>
      obtain ⟨⟨column, rule⟩, hcolumn, heq⟩ := List.mem_map.mp hmem
      cases heq
      exact ⟨columns, htable, hcolumn⟩
  · rintro ⟨columns, htable, hcolumn⟩
    exact ⟨_, htable, List.mem_map.mpr ⟨_, hcolumn, rfl⟩⟩

theorem mem_truncatedTables_iff {tables : List (String × TableRule)} {table : String} :
    table ∈ truncatedTables tables ↔ (table, .truncate) ∈ tables := by
  rw [truncatedTables, Assoc.keys, List.mem_map]
  constructor
  · rintro ⟨⟨name, rule⟩, hmem, rfl⟩
    obtain ⟨hmem, hrule⟩ := List.mem_filter.mp hmem
    cases rule with
    | truncate => exact hmem
    | columns columns => cases hrule
  · intro hmem
    exact ⟨_, List.mem_filter.mpr ⟨hmem, rfl⟩, rfl⟩

/-- With distinct names no column has two rules. -/
theorem NamesDistinct.nodup_columnRules {rules : Rules} (h : rules.NamesDistinct) :
    (Assoc.keys (columnRules rules.tables)).Nodup := by
  rw [Assoc.keys, columnRules, List.map_flatMap, List.nodup_flatMap]
  constructor
  · rintro ⟨table, rule⟩ htable
    cases rule with
    | truncate => exact List.nodup_nil
    | columns columns =>
      have hcolumns : (columns.map fun entry => (⟨table, entry.1⟩ : ColumnId)).Nodup := by
        have hmap := (h.columns table columns htable).map (f := ColumnId.mk table)
          fun left right heq => congrArg ColumnId.column heq
        rwa [Assoc.keys, List.map_map] at hmap
      rwa [TableRule.columnRules, List.map_map]
  · refine (List.pairwise_map.mp h.tables).imp ?_
    rintro ⟨left, leftRule⟩ ⟨right, rightRule⟩ hne id hleft hright
    have htable : ∀ {table : String} {rule : TableRule},
        id ∈ (rule.columnRules table).map Prod.fst → id.table = table := by
      intro table rule hmem
      cases rule with
      | truncate => cases hmem
      | columns columns =>
        rw [TableRule.columnRules, List.map_map] at hmem
        obtain ⟨entry, -, rfl⟩ := List.mem_map.mp hmem
        rfl
    exact hne ((htable hleft).symm.trans (htable hright))

theorem NamesDistinct.nodup_truncatedTables {rules : Rules} (h : rules.NamesDistinct) :
    (truncatedTables rules.tables).Nodup :=
  (List.filter_sublist.map Prod.fst).nodup h.tables

theorem checkVersion_eq_ok_iff {rules : Rules} {done : Unit} :
    rules.checkVersion = .ok done ↔ rules.version = none ∨ rules.version = some 1 := by
  rw [checkVersion]
  cases rules.version with
  | none => simp
  | some version => by_cases hversion : version = 1 <;> simp [hversion]

theorem threshold?_eq_ok_iff {rules : Rules} {threshold : Threshold} :
    rules.threshold? = .ok threshold ↔
      rules.threshold ≠ some 0 ∧ threshold = rules.setting.threshold := by
  rw [threshold?, setting]
  cases rules.threshold with
  | none => simp [eq_comm]
  | some length => by_cases hlength : length = 0 <;> simp [hlength, eq_comm]

end Rules

namespace Masker

/-! ### Adding the rules one by one -/

def registerAll (masker : Masker) (built : List (ColumnId × Transform)) : Masker :=
  built.foldl (fun masker entry => masker.register entry.1 entry.2) masker

def truncateAll (masker : Masker) (tables : List String) : Masker :=
  tables.foldl truncate masker

variable {setting : FieldRule.Setting} {masker out : Masker}

theorem registerAll_append (masker : Masker) (left right : List (ColumnId × Transform)) :
    masker.registerAll (left ++ right) = (masker.registerAll left).registerAll right :=
  List.foldl_append ..

theorem registerAll_eq (masker : Masker) (built : List (ColumnId × Transform)) :
    masker.registerAll built =
      { masker with
        transforms := built.foldl (fun table (key, value) => Assoc.insert key value table)
          masker.transforms } := by
  induction built generalizing masker with
  | nil => rfl
  | cons entry rest ih => exact ih (masker.register entry.1 entry.2)

theorem register_truncate (masker : Masker) (table : String) (column : ColumnId)
    (transform : Transform) :
    (masker.truncate table).register column transform =
      (masker.register column transform).truncate table := by
  by_cases htable : table ∈ masker.truncated <;> simp [truncate, register, htable]

theorem registerAll_truncate (masker : Masker) (table : String)
    (built : List (ColumnId × Transform)) :
    (masker.truncate table).registerAll built = (masker.registerAll built).truncate table := by
  induction built generalizing masker with
  | nil => rfl
  | cons entry rest ih =>
    have hregister := register_truncate masker table entry.1 entry.2
    exact (congrArg (registerAll · rest) hregister).trans (ih _)

theorem addColumns_eq_ok_iff {table : String} {rules : List (String × FieldRule)} :
    addColumns setting table masker rules = .ok out ↔
      ∃ built, ((TableRule.columns rules).columnRules table).mapM (FieldRule.buildFor setting) =
        .ok built ∧ out = masker.registerAll built := by
  rw [TableRule.columnRules]
  induction rules generalizing masker with
  | nil => simp [addColumns, registerAll, pure, Except.pure, eq_comm]
  | cons entry rest ih =>
    obtain ⟨column, rule⟩ := entry
    rw [addColumns, List.map_cons, List.mapM_cons]
    simp only [bind_eq_ok_iff, FieldRule.buildFor, map_eq_ok_iff]
    cases hbuild : rule.build setting column with
    | error located => simp
    | ok transform =>
      rw [ih]
      constructor
      · rintro ⟨built, hbuilt, rfl⟩
        exact ⟨(⟨table, column⟩, transform) :: built,
          ⟨_, ⟨transform, rfl, rfl⟩, built, hbuilt, rfl⟩, rfl⟩
      · rintro ⟨built, ⟨first, ⟨transform', htransform, rfl⟩, others, hothers, hbuilt⟩, rfl⟩
        cases htransform
        cases hbuilt
        exact ⟨others, hothers, rfl⟩

/-- All columns are registered and then all tables truncated, since the two touch different parts of
the masker. -/
theorem addTables_eq_ok_iff {tables : List (String × TableRule)} :
    addTables setting masker tables = .ok out ↔
      ∃ built, (Rules.columnRules tables).mapM (FieldRule.buildFor setting) = .ok built ∧
        out = (masker.registerAll built).truncateAll (Rules.truncatedTables tables) := by
  induction tables generalizing masker with
  | nil =>
    simp [addTables, Rules.columnRules, Rules.truncatedTables, Assoc.keys, registerAll, truncateAll,
      pure, Except.pure, eq_comm]
  | cons entry rest ih =>
    obtain ⟨table, rule⟩ := entry
    cases rule with
    | truncate =>
      rw [addTables, ih]
      refine exists_congr fun built => and_congr_right fun _ => ?_
      rw [registerAll_truncate]
      rfl
    | columns rules =>
      rw [addTables, bind_eq_ok_iff, Rules.columnRules, List.flatMap_cons, ← Rules.columnRules,
        List.mapM_append]
      simp only [bind_eq_ok_iff, addColumns_eq_ok_iff, ih]
      constructor
      · rintro ⟨middle, ⟨first, hfirst, rfl⟩, built, hbuilt, rfl⟩
        refine ⟨first ++ built, ⟨first, hfirst, built, hbuilt, rfl⟩, ?_⟩
        rw [registerAll_append]
        rfl
      · rintro ⟨_, ⟨first, hfirst, built, hbuilt, heq⟩, rfl⟩
        cases heq
        refine ⟨_, ⟨first, hfirst, rfl⟩, built, hbuilt, ?_⟩
        rw [registerAll_append]
        rfl

theorem ofRules_eq_ok_iff {rules : Rules} :
    ofRules rules = .ok masker ↔
      (rules.version = none ∨ rules.version = some 1) ∧ rules.threshold ≠ some 0 ∧
        ∃ built, (Rules.columnRules rules.tables).mapM (FieldRule.buildFor rules.setting) =
          .ok built ∧ masker = ((empty rules.setting.threshold).registerAll built).truncateAll
            (Rules.truncatedTables rules.tables) := by
  simp only [ofRules, bind_eq_ok_iff, Rules.checkVersion_eq_ok_iff, Rules.threshold?_eq_ok_iff,
    addTables_eq_ok_iff]
  constructor
  · rintro ⟨-, hversion, threshold, ⟨hthreshold, rfl⟩, hbuilt⟩
    exact ⟨hversion, hthreshold, hbuilt⟩
  · rintro ⟨hversion, hthreshold, hbuilt⟩
    exact ⟨(), hversion, _, ⟨hthreshold, rfl⟩, hbuilt⟩

/-! ### What the masker then knows -/

theorem mem_built_iff {entries : List (ColumnId × FieldRule)}
    {built : List (ColumnId × Transform)}
    (hbuilt : entries.mapM (FieldRule.buildFor setting) = .ok built) {id : ColumnId}
    {transform : Transform} :
    (id, transform) ∈ built ↔
      ∃ rule, (id, rule) ∈ entries ∧ rule.build setting id.column = .ok transform := by
  have hmem : (id, transform) ∈ built ↔
      Except.ok (id, transform) ∈ entries.map (FieldRule.buildFor setting) := by
    rw [← mapM_eq_ok_iff.mp hbuilt]
    simp
  rw [hmem, List.mem_map]
  simp only [FieldRule.buildFor, map_eq_ok_iff, Prod.mk.injEq]
  constructor
  · rintro ⟨⟨id', rule⟩, hentry, found, hfound, rfl, rfl⟩
    exact ⟨rule, hentry, hfound⟩
  · rintro ⟨rule, hentry, hbuild⟩
    exact ⟨(id, rule), hentry, transform, hbuild, rfl, rfl⟩

theorem keys_built {entries : List (ColumnId × FieldRule)} {built : List (ColumnId × Transform)}
    (hbuilt : entries.mapM (FieldRule.buildFor setting) = .ok built) :
    Assoc.keys built = Assoc.keys entries := by
  induction entries generalizing built with
  | nil =>
    cases hbuilt
    rfl
  | cons entry rest ih =>
    rw [List.mapM_cons] at hbuilt
    obtain ⟨first, hfirst, hbuilt⟩ := bind_eq_ok_iff.mp hbuilt
    obtain ⟨others, hothers, hbuilt⟩ := bind_eq_ok_iff.mp hbuilt
    obtain ⟨transform, -, rfl⟩ := map_eq_ok_iff.mp hfirst
    cases hbuilt
    exact congrArg (entry.1 :: ·) (ih hothers)

/-- The tables are taken over as they are if none of them comes twice. -/
theorem truncateAll_eq {tables : List String} (h : (masker.truncated ++ tables).Nodup) :
    masker.truncateAll tables = { masker with truncated := masker.truncated ++ tables } := by
  induction tables generalizing masker with
  | nil => simp [truncateAll]
  | cons first rest ih =>
    have hfirst : first ∉ masker.truncated := by
      intro hmem
      exact (List.nodup_append.mp h).2.2 first hmem first (List.mem_cons_self ..) rfl
    have htruncate : masker.truncate first =
        { masker with truncated := masker.truncated ++ [first] } := by
      simp [truncate, hfirst]
    have hrest : ((masker.truncate first).truncated ++ rest).Nodup := by
      rw [htruncate]
      simpa using h
    refine (ih hrest).trans ?_
    simp [htruncate]

section Configured

variable {rules : Rules}

/-- With distinct names the parts of the masker are those of the rules, in the order of the rules. -/
theorem of_ofRules_of_namesDistinct (hnames : rules.NamesDistinct)
    (h : ofRules rules = .ok masker) :
    masker.threshold = rules.setting.threshold ∧
      masker.truncated = Rules.truncatedTables rules.tables ∧
      (Rules.columnRules rules.tables).mapM (FieldRule.buildFor rules.setting) =
        .ok masker.transforms := by
  obtain ⟨-, -, built, hbuilt, rfl⟩ := ofRules_eq_ok_iff.mp h
  have hkeys : (Assoc.keys built).Nodup := by
    rw [keys_built hbuilt]
    exact hnames.nodup_columnRules
  rw [registerAll_eq, truncateAll_eq hnames.nodup_truncatedTables]
  exact ⟨rfl, rfl, hbuilt.trans (congrArg Except.ok (Assoc.ofList_of_nodup hkeys).symm)⟩

theorem exists_ofRules_iff_built :
    (∃ masker, ofRules rules = .ok masker) ↔
      (rules.version = none ∨ rules.version = some 1) ∧ rules.threshold ≠ some 0 ∧
        ∀ entry ∈ Rules.columnRules rules.tables,
          ∃ built, FieldRule.buildFor rules.setting entry = .ok built := by
  simp only [ofRules_eq_ok_iff, ← exists_mapM_iff]
  constructor
  · rintro ⟨masker, hversion, hthreshold, built, hbuilt, -⟩
    exact ⟨hversion, hthreshold, built, hbuilt⟩
  · rintro ⟨hversion, hthreshold, built, hbuilt⟩
    exact ⟨_, hversion, hthreshold, built, hbuilt, rfl⟩

theorem exists_ofRules_iff :
    (∃ masker, ofRules rules = .ok masker) ↔
      (rules.version = none ∨ rules.version = some 1) ∧ rules.threshold ≠ some 0 ∧
        ∀ table columns, (table, .columns columns) ∈ rules.tables →
          ∀ column rule, (column, rule) ∈ columns →
            ∃ transform, rule.build rules.setting column = .ok transform := by
  refine exists_ofRules_iff_built.trans (and_congr_right fun _ => and_congr_right fun _ => ?_)
  constructor
  · intro h table columns htable column rule hcolumn
    obtain ⟨built, hbuilt⟩ :=
      h (⟨table, column⟩, rule) (Rules.mem_columnRules_iff.mpr ⟨columns, htable, hcolumn⟩)
    obtain ⟨transform, htransform, -⟩ := map_eq_ok_iff.mp hbuilt
    exact ⟨transform, htransform⟩
  · rintro h ⟨id, rule⟩ hentry
    obtain ⟨columns, htable, hcolumn⟩ := Rules.mem_columnRules_iff.mp hentry
    obtain ⟨transform, htransform⟩ := h id.table columns htable id.column rule hcolumn
    exact ⟨_, map_eq_ok_iff.mpr ⟨transform, htransform, rfl⟩⟩

theorem resolve?_of_ofRules (hnames : rules.NamesDistinct) (h : ofRules rules = .ok masker)
    {id : ColumnId} {transform : Transform} :
    masker.resolve? id = some transform ↔
      ∃ columns rule, (id.table, .columns columns) ∈ rules.tables ∧ (id.column, rule) ∈ columns ∧
        rule.build rules.setting id.column = .ok transform := by
  obtain ⟨-, -, hbuilt⟩ := of_ofRules_of_namesDistinct hnames h
  have hkeys : (Assoc.keys masker.transforms).Nodup := nodup_columns h
  rw [resolve?, Assoc.find?_eq_some_iff_mem hkeys, mem_built_iff hbuilt]
  simp only [Rules.mem_columnRules_iff]
  constructor
  · rintro ⟨rule, ⟨columns, htable, hcolumn⟩, hbuild⟩
    exact ⟨columns, rule, htable, hcolumn, hbuild⟩
  · rintro ⟨columns, rule, htable, hcolumn, hbuild⟩
    exact ⟨rule, ⟨columns, htable, hcolumn⟩, hbuild⟩

theorem isTruncated_of_ofRules (hnames : rules.NamesDistinct) (h : ofRules rules = .ok masker)
    {table : String} : masker.isTruncated table = true ↔ (table, .truncate) ∈ rules.tables := by
  obtain ⟨-, htruncated, -⟩ := of_ofRules_of_namesDistinct hnames h
  rw [isTruncated, htruncated, List.contains_iff_mem, Rules.mem_truncatedTables_iff]

theorem isSome_resolve?_of_ofRules (hnames : rules.NamesDistinct) (h : ofRules rules = .ok masker)
    {table column : String} :
    (masker.resolve? ⟨table, column⟩).isSome = true ↔
      ∃ columns rule, (table, .columns columns) ∈ rules.tables ∧ (column, rule) ∈ columns := by
  simp only [Option.isSome_iff_exists, resolve?_of_ofRules hnames h]
  constructor
  · rintro ⟨transform, columns, rule, htable, hcolumn, -⟩
    exact ⟨columns, rule, htable, hcolumn⟩
  · rintro ⟨columns, rule, htable, hcolumn⟩
    obtain ⟨-, -, hbuilds⟩ := exists_ofRules_iff.mp ⟨masker, h⟩
    obtain ⟨transform, hbuild⟩ := hbuilds table columns htable column rule hcolumn
    exact ⟨transform, columns, rule, htable, hcolumn, hbuild⟩

theorem hasTable_of_ofRules (hnames : rules.NamesDistinct) (h : ofRules rules = .ok masker)
    {table : String} :
    masker.hasTable table = true ↔
      ∃ columns, (table, .columns columns) ∈ rules.tables ∧ columns ≠ [] := by
  rw [hasTable_iff]
  simp only [isSome_resolve?_of_ofRules hnames h]
  constructor
  · rintro ⟨column, columns, rule, htable, hcolumn⟩
    exact ⟨columns, htable, List.ne_nil_of_mem hcolumn⟩
  · rintro ⟨columns, htable, hne⟩
    obtain ⟨⟨column, rule⟩, hcolumn⟩ := List.exists_mem_of_ne_nil columns hne
    exact ⟨column, columns, rule, htable, hcolumn⟩

end Configured

/-! ### The order of the rules -/

/-- Two maskers that know the same, perhaps in another order. -/
structure IsSame (left right : Masker) : Prop where
  threshold_eq : left.threshold = right.threshold
  transforms_perm : left.transforms.Perm right.transforms
  truncated_perm : left.truncated.Perm right.truncated
  resolve_eq : ∀ column, left.resolve? column = right.resolve? column
  isTruncated_eq : ∀ table, left.isTruncated table = right.isTruncated table

end Masker

namespace Rules

/-- The same tables, with the columns of each in any order. -/
inductive ReordersColumns : List (String × TableRule) → List (String × TableRule) → Prop
  | nil : ReordersColumns [] []
  | truncate (table : String) {left right : List (String × TableRule)}
      (hrest : ReordersColumns left right) :
      ReordersColumns ((table, .truncate) :: left) ((table, .truncate) :: right)
  | columns (table : String) {columns columns' : List (String × FieldRule)}
      {left right : List (String × TableRule)} (hcolumns : columns.Perm columns')
      (hrest : ReordersColumns left right) :
      ReordersColumns ((table, .columns columns) :: left) ((table, .columns columns') :: right)

/-- The same document, with the tables and the columns of each table in any order. -/
structure Reorders (left right : Rules) : Prop where
  version_eq : left.version = right.version
  secret_eq : left.secret = right.secret
  threshold_eq : left.threshold = right.threshold
  tables : ∃ order, left.tables.Perm order ∧ ReordersColumns order right.tables

variable {left right : Rules} {order tables : List (String × TableRule)}

theorem ReordersColumns.refl : ∀ tables, ReordersColumns tables tables
  | [] => .nil
  | (table, .truncate) :: rest => .truncate table (refl rest)
  | (table, .columns _) :: rest => .columns table (.refl _) (refl rest)

theorem ReordersColumns.columnRules_perm (h : ReordersColumns order tables) :
    (columnRules order).Perm (columnRules tables) := by
  induction h with
  | nil => exact .refl _
  | truncate table hrest ih => exact ih
  | columns table hcolumns hrest ih => exact (hcolumns.map _).append ih

theorem ReordersColumns.truncatedTables_eq (h : ReordersColumns order tables) :
    truncatedTables order = truncatedTables tables := by
  induction h with
  | nil => rfl
  | truncate table hrest ih => exact congrArg (table :: ·) ih
  | columns table hcolumns hrest ih => exact ih

theorem ReordersColumns.keys_eq (h : ReordersColumns order tables) :
    Assoc.keys order = Assoc.keys tables := by
  induction h with
  | nil => rfl
  | truncate table hrest ih => exact congrArg (table :: ·) ih
  | columns table hcolumns hrest ih => exact congrArg (table :: ·) ih

theorem ReordersColumns.exists_perm (h : ReordersColumns order tables) {table : String}
    {columns : List (String × FieldRule)} (hmem : (table, .columns columns) ∈ tables) :
    ∃ columns', (table, .columns columns') ∈ order ∧ columns'.Perm columns := by
  induction h with
  | nil => cases hmem
  | truncate first hrest ih =>
    obtain heq | hmem := List.mem_cons.mp hmem
    · cases heq
    · obtain ⟨columns', hmem', hperm⟩ := ih hmem
      exact ⟨columns', List.mem_cons_of_mem _ hmem', hperm⟩
  | columns first hcolumns hrest ih =>
    obtain heq | hmem := List.mem_cons.mp hmem
    · cases heq
      exact ⟨_, List.mem_cons_self .., hcolumns⟩
    · obtain ⟨columns', hmem', hperm⟩ := ih hmem
      exact ⟨columns', List.mem_cons_of_mem _ hmem', hperm⟩

theorem Reorders.setting_eq (h : left.Reorders right) : left.setting = right.setting := by
  rw [setting, setting, h.secret_eq, h.threshold_eq]

theorem Reorders.columnRules_perm (h : left.Reorders right) :
    (columnRules left.tables).Perm (columnRules right.tables) := by
  obtain ⟨order, hperm, hcolumns⟩ := h.tables
  exact (hperm.flatMap_right _).trans hcolumns.columnRules_perm

theorem Reorders.truncatedTables_perm (h : left.Reorders right) :
    (truncatedTables left.tables).Perm (truncatedTables right.tables) := by
  obtain ⟨order, hperm, hcolumns⟩ := h.tables
  rw [← hcolumns.truncatedTables_eq]
  exact (hperm.filter _).map _

theorem Reorders.namesDistinct (h : left.Reorders right) (hnames : left.NamesDistinct) :
    right.NamesDistinct := by
  obtain ⟨order, hperm, hcolumns⟩ := h.tables
  constructor
  · rw [← hcolumns.keys_eq]
    exact (hperm.map Prod.fst).nodup_iff.mp hnames.tables
  · intro table columns hmem
    obtain ⟨columns', hmem', hperm'⟩ := hcolumns.exists_perm hmem
    have hkeys := hnames.columns table columns' (hperm.mem_iff.mpr hmem')
    exact (hperm'.map Prod.fst).nodup_iff.mp hkeys

end Rules

namespace Masker

variable {left right : Masker} {rules other : Rules}

theorem exists_ofRules_of_reorders (h : rules.Reorders other) :
    (∃ masker, ofRules rules = .ok masker) ↔ ∃ masker, ofRules other = .ok masker := by
  rw [exists_ofRules_iff_built, exists_ofRules_iff_built, h.version_eq, h.threshold_eq,
    h.setting_eq]
  simp only [h.columnRules_perm.mem_iff]

theorem isSame_of_reorders (h : rules.Reorders other) (hnames : rules.NamesDistinct)
    (hleft : ofRules rules = .ok left) (hright : ofRules other = .ok right) :
    left.IsSame right := by
  obtain ⟨hthreshold, htruncated, hbuilt⟩ := of_ofRules_of_namesDistinct hnames hleft
  obtain ⟨hthreshold', htruncated', hbuilt'⟩ :=
    of_ofRules_of_namesDistinct (h.namesDistinct hnames) hright
  have htransforms : left.transforms.Perm right.transforms := by
    rw [← h.setting_eq] at hbuilt'
    have hinjective : Function.Injective
        (Except.ok : ColumnId × Transform → Except FieldRule.Located (ColumnId × Transform)) :=
      fun _ _ => Except.ok.inj
    rw [← List.map_perm_map_iff hinjective, mapM_eq_ok_iff.mp hbuilt, mapM_eq_ok_iff.mp hbuilt']
    exact h.columnRules_perm.map _
  have htruncated : left.truncated.Perm right.truncated := by
    rw [htruncated, htruncated']
    exact h.truncatedTables_perm
  refine ⟨?_, htransforms, htruncated, ?_, ?_⟩
  · rw [hthreshold, hthreshold', h.setting_eq]
  · exact (Assoc.perm_iff_find?_eq (nodup_columns hleft) (nodup_columns hright)).mp htransforms
  · intro table
    rw [isTruncated, isTruncated, Bool.eq_iff_iff, List.contains_iff_mem, List.contains_iff_mem]
    exact htruncated.mem_iff

/-- **A masker is what its rules say.** A document with distinct names configures a masker exactly
when its version, its threshold and all of its rules are in order. The masker then resolves a column
that has a rule to the transform of that rule, and no other; it drops the rows of the truncated
tables, and has the tables with a column rule. The order of the tables and columns changes nothing. -/
theorem ofRules_knows_rules {rules : Rules} (hnames : rules.NamesDistinct) :
    ((∃ masker, ofRules rules = .ok masker) ↔
      (rules.version = none ∨ rules.version = some 1) ∧ rules.threshold ≠ some 0 ∧
        ∀ table columns, (table, .columns columns) ∈ rules.tables →
          ∀ column rule, (column, rule) ∈ columns →
            ∃ transform, rule.build rules.setting column = .ok transform) ∧
    (∀ masker, ofRules rules = .ok masker →
      masker.threshold = rules.setting.threshold ∧
      (∀ table column transform, masker.resolve? ⟨table, column⟩ = some transform ↔
        ∃ columns rule, (table, .columns columns) ∈ rules.tables ∧ (column, rule) ∈ columns ∧
          rule.build rules.setting column = .ok transform) ∧
      (∀ table column, (masker.resolve? ⟨table, column⟩).isSome = true ↔
        ∃ columns rule, (table, .columns columns) ∈ rules.tables ∧ (column, rule) ∈ columns) ∧
      (∀ table, masker.isTruncated table = true ↔ (table, .truncate) ∈ rules.tables) ∧
      ∀ table, masker.hasTable table = true ↔
        ∃ columns, (table, .columns columns) ∈ rules.tables ∧ columns ≠ []) ∧
    ∀ other, rules.Reorders other →
      ((∃ masker, ofRules rules = .ok masker) ↔ ∃ masker, ofRules other = .ok masker) ∧
      ∀ left right, ofRules rules = .ok left → ofRules other = .ok right → left.IsSame right := by
  refine ⟨exists_ofRules_iff, ?_, ?_⟩
  · intro masker hmasker
    obtain ⟨hthreshold, -, -⟩ := of_ofRules_of_namesDistinct hnames hmasker
    exact ⟨hthreshold, fun _ _ _ => resolve?_of_ofRules hnames hmasker,
      fun _ _ => isSome_resolve?_of_ofRules hnames hmasker,
      fun _ => isTruncated_of_ofRules hnames hmasker, fun _ => hasTable_of_ofRules hnames hmasker⟩
  · intro other horder
    exact ⟨exists_ofRules_of_reorders horder,
      fun left right => isSame_of_reorders horder hnames⟩

/-- The tables of a document, also taken from back to front. -/
theorem ofRules_knows_rules_reversed :
    let text := "\x7b\"secret\":\"k\",\"threshold\":8,\"tables\":\x7b\"s\":\"truncate\"," ++
      "\"t\":\x7b\"a\":\x7b\"mode\":\"texthash\"\x7d,\"b\":\x7b\"mode\":\"null\"\x7d\x7d\x7d\x7d"
    ∃ rules left right, Rules.read text = some rules ∧ rules.NamesDistinct ∧
      ofRules rules = .ok left ∧
      ofRules { rules with tables := rules.tables.reverse } = .ok right ∧
      left.isTruncated "s" = true ∧ ("s", .truncate) ∈ rules.tables ∧ left.IsSame right := by
  intro text
  have hdocument : ((Rules.read text).bind fun rules =>
      (ofRules rules).toOption.map (·.isTruncated "s")) = some true := by decide +kernel
  obtain ⟨rules, hread, hmasker⟩ := Option.bind_eq_some_iff.mp hdocument
  obtain ⟨left, hleft, htruncated⟩ := Option.map_eq_some_iff.mp hmasker
  have hleft := eq_ok_of_toOption hleft
  have hnames := Rules.namesDistinct_of_read hread
  have horder : rules.Reorders { rules with tables := rules.tables.reverse } :=
    ⟨rfl, rfl, rfl, _, (List.reverse_perm _).symm, .refl _⟩
  obtain ⟨-, hknows, hreordered⟩ := ofRules_knows_rules hnames
  obtain ⟨hexists, hsame⟩ := hreordered _ horder
  obtain ⟨right, hright⟩ := hexists.mp ⟨left, hleft⟩
  obtain ⟨-, -, -, htruncates, -⟩ := hknows left hleft
  exact ⟨rules, left, right, hread, hnames, hleft, hright, htruncated,
    (htruncates "s").mp htruncated, hsame left right hleft hright⟩

end Masker

end DumpMask
