import Uplink.Proofs.Configuration.Sections
import Uplink.Proofs.Text.Canonical

namespace Uplink.Configuration

variable {files : Files} {e e' : Environment} {text v w u : String} {t x leaf : Node}

/-- What a setting gets from the text of a variable. -/
def taken (text : String) : String := (Scalar.ofText text).text?.getD ""

/-- The part of a tree that the text of a variable becomes. -/
def leafOf (text : String) : Node := .scalar (.ofText text) (some environmentName)

def IsTruth (text : String) : Prop :=
  let lower := String.ofList (text.toList.map Char.toLower)
  lower = "true" ∨ lower = "false"

/-- Read as a whole number of 64 bits with a sign. -/
def IsWhole (text : String) : Prop :=
  ∃ n, Text.Decimal.readInt Number.intMax text.toList = .ok n

/-- The texts that arrive as they are: of truth values those in lower case, of whole numbers those
without a plus and without zeros that do not count, of other numbers those that the double next to
them is written as, and all that look like none of these. -/
structure Lasting (text : String) : Prop where
  truth : IsTruth text → text = "true" ∨ text = "false"
  whole : ¬IsTruth text → IsWhole text → Text.Decimal.Canonical text.toList
  double : ¬IsTruth text → ¬IsWhole text → ∀ d, Number.read text.toList = some d →
    Number.plain d = text.toList

theorem text?_ofText (text : String) : (Scalar.ofText text).text? = some (taken text) := by
  have hsome : (Scalar.ofText text).text?.isSome := by
    unfold Scalar.ofText
    simp only
    split
    · rfl
    · split
      · rfl
      · split
        · rfl
        · split <;> rfl
  obtain ⟨u, hu⟩ := Option.isSome_iff_exists.mp hsome
  rw [taken, hu, Option.getD_some]

theorem isLeaf_leafOf (text : String) : (leafOf text).IsLeaf := trivial

theorem asText_leafOf (text : String) : (leafOf text).asText = .ok (taken text) := by
  simp only [leafOf, Node.asText, text?_ofText]

theorem taken_truth (h : IsTruth text) :
    taken text = text ↔ text = "true" ∨ text = "false" := by
  have htaken : taken text = String.ofList (text.toList.map Char.toLower) := by
    rw [taken, Scalar.ofText]
    rcases h with h | h <;> simp [h, Scalar.text?]
  rw [htaken]
  constructor
  · intro he
    rw [← he]
    exact h
  · rintro (rfl | rfl) <;> decide

theorem ofText_of_not_truth (h : ¬IsTruth text) :
    Scalar.ofText text =
      match Text.Decimal.readInt Number.intMax text.toList with
      | .ok n => .int n
      | .error _ =>
        match Number.read text.toList with
        | some d => .float d
        | none => .text text := by
  obtain ⟨htrue, hfalse⟩ := not_or.mp h
  exact (if_neg htrue).trans (if_neg hfalse)

theorem taken_whole (ht : ¬IsTruth text) {n : Int}
    (hn : Text.Decimal.readInt Number.intMax text.toList = .ok n) :
    taken text = text ↔ Text.Decimal.Canonical text.toList := by
  have htaken : taken text = String.ofList (Text.Decimal.ofInt n) := by
    rw [taken, ofText_of_not_truth ht, hn]
    rfl
  rw [htaken, ← String.toList_inj, String.toList_ofList, Text.Decimal.ofInt_eq_iff hn]

/-- A text that is no whole number either may be another number, and is itself otherwise. -/
theorem ofText_of_not_whole (ht : ¬IsTruth text) (hw : ¬IsWhole text) :
    Scalar.ofText text = (Number.read text.toList).elim (.text text) .float := by
  rw [ofText_of_not_truth ht]
  cases hr : Text.Decimal.readInt Number.intMax text.toList with
  | ok n => exact absurd ⟨n, hr⟩ hw
  | error fault => cases Number.read text.toList <;> rfl

theorem taken_double (ht : ¬IsTruth text) (hw : ¬IsWhole text) {d : Float}
    (hd : Number.read text.toList = some d) :
    taken text = text ↔ Number.plain d = text.toList := by
  have htaken : taken text = String.ofList (Number.plain d) := by
    rw [taken, ofText_of_not_whole ht hw, hd]
    rfl
  rw [htaken, ← String.toList_inj, String.toList_ofList]

theorem taken_other (ht : ¬IsTruth text) (hw : ¬IsWhole text)
    (hd : Number.read text.toList = none) : taken text = text := by
  rw [taken, ofText_of_not_whole ht hw, hd]
  rfl

/-- A text arrives as it is exactly when it is how the scalar it looks like is written. -/
theorem taken_eq_iff (text : String) : taken text = text ↔ Lasting text := by
  by_cases ht : IsTruth text
  · rw [taken_truth ht]
    exact ⟨fun h => ⟨fun _ => h, fun hn => absurd ht hn, fun hn => absurd ht hn⟩,
      fun h => h.truth ht⟩
  by_cases hw : IsWhole text
  · obtain ⟨n, hn⟩ := hw
    rw [taken_whole ht hn]
    exact ⟨fun h => ⟨fun hy => absurd hy ht, fun _ _ => h, fun _ hy => absurd ⟨n, hn⟩ hy⟩,
      fun h => h.whole ht ⟨n, hn⟩⟩
  cases hd : Number.read text.toList with
  | some d =>
    rw [taken_double ht hw hd]
    refine ⟨fun h => ⟨fun hy => absurd hy ht, fun _ hy => absurd hy hw, fun _ _ d' hd' => ?_⟩,
      fun h => h.double ht hw d hd⟩
    cases hd.symm.trans hd'
    exact h
  | none =>
    refine iff_of_true (taken_other ht hw hd) ⟨fun hy => absurd hy ht, fun _ hy => absurd hy hw, ?_⟩
    intro _ _ d hd'
    cases hd.symm.trans hd'

/-- The settings that are texts. -/
inductive TextSetting where
  | host
  | databaseUrl
  | brokerServer
  | username
  | password
  | clientId
  deriving DecidableEq

namespace TextSetting

/-- The section of a setting and its name in it. -/
def path : TextSetting → List String
  | host => ["server", "host"]
  | databaseUrl => ["database", "url"]
  | brokerServer => ["mqtt", "server"]
  | username => ["mqtt", "username"]
  | password => ["mqtt", "password"]
  | clientId => ["mqtt", "client_id"]

/-- The variable that sets it, as it is usually written. -/
def variableName : TextSetting → String
  | host => "LORA_NOTIFY_SERVER__HOST"
  | databaseUrl => "LORA_NOTIFY_DATABASE__URL"
  | brokerServer => "LORA_NOTIFY_MQTT__SERVER"
  | username => "LORA_NOTIFY_MQTT__USERNAME"
  | password => "LORA_NOTIFY_MQTT__PASSWORD"
  | clientId => "LORA_NOTIFY_MQTT__CLIENT_ID"

def get (c : Settings) : TextSetting → String
  | host => c.server.host
  | databaseUrl => c.database.url
  | brokerServer => c.broker.server
  | username => c.broker.username
  | password => c.broker.password
  | clientId => c.broker.clientId

def put (v : String) (c : Settings) : TextSetting → Settings
  | host => { c with server := { c.server with host := v } }
  | databaseUrl => { c with database := { c.database with url := v } }
  | brokerServer => { c with broker := { c.broker with server := v } }
  | username => { c with broker := { c.broker with username := v } }
  | password => { c with broker := { c.broker with password := v } }
  | clientId => { c with broker := { c.broker with clientId := v } }

variable {s : TextSetting}

@[simp] theorem get_put (s : TextSetting) (v : String) (c : Settings) : s.get (s.put v c) = v := by
  cases s <;> rfl

@[simp] theorem put_put (s : TextSetting) (v w : String) (c : Settings) :
    s.put w (s.put v c) = s.put w c := by
  cases s <;> rfl

theorem path_ne_nil (s : TextSetting) : s.path ≠ [] := by
  cases s <;> exact List.cons_ne_nil _ _

/-- A text that stands in a section of its own kind: where it is exchanged for another, the settings
are read as before but for it. -/
theorem ofNode_exchanged {τ : Type} {title : String} {fields : List (Field τ)} {start : τ}
    {section_ name : String} {set : τ → Settings → Settings} {change : Settings → Settings}
    (write : String → τ → τ)
    (hsection : field section_ (readSection title fields start) set ∈ Settings.fields)
    (hothers : ∀ g ∈ Settings.fields, g.name ≠ section_ → g.Commutes change)
    (hfield : field name Node.asText write ∈ fields) (hnames : (fields.map (·.name)).Nodup)
    (hfields : ∀ g ∈ fields, g.name ≠ name → g.Commutes (write w))
    (hset : ∀ b c, change (set b c) = set (write w b) c)
    (hwrite : ∀ u b, write w (write u b) = write w b)
    (hfound : t.find? [section_, name] = some leaf) (hleaf : leaf.asText = .ok u)
    (hx : x.IsLeaf) (hw : x.asText = .ok w) :
    Settings.ofNode (t.put [section_, name] x) = (Settings.ofNode t).map change := by
  obtain ⟨inner, hinner, hfound⟩ := Option.bind_eq_some_iff.mp hfound
  obtain ⟨_, hmember, hsame⟩ := Option.bind_eq_some_iff.mp hfound
  cases hsame
  have hput : t.put [section_, name] x = t.withMember section_ (inner.withMember name x) := by
    rw [Node.put, List.map_cons, Node.set_cons (by simp), hinner]
    exact congrArg (t.withMember section_) (Node.assign_leaf hx name inner)
  have hname : (field name Node.asText write).Exchanges leaf x (write w) := by
    change (x.asText).map write = ((leaf.asText).map write).map (write w ∘ ·)
    rw [hw, hleaf]
    exact congrArg Except.ok (funext fun b => (hwrite u b).symm)
  have hread : readSection title fields start (inner.withMember name x) =
      (readSection title fields start inner).map (write w) :=
    readSection_exchanged hfield hnames hfields hmember hname
  have hsec : (field section_ (readSection title fields start) set).Exchanges inner
      (inner.withMember name x) change := by
    change (readSection title fields start (inner.withMember name x)).map set =
      ((readSection title fields start inner).map set).map (change ∘ ·)
    rw [hread]
    cases readSection title fields start inner with
    | error fault => rfl
    | ok b => exact congrArg Except.ok (funext fun c => (hset b c).symm)
  rw [hput]
  exact readSection_exchanged hsection (by decide) hothers hinner hsec

/-- Setting a text leaves all sections but its own alone. -/
theorem sections_commute (s : TextSetting) (w : String) :
    ∀ g ∈ Settings.fields, some g.name ≠ s.path.head? → g.Commutes (s.put w) := by
  simp only [Settings.fields, List.forall_mem_cons]
  cases s
  all_goals
    and_intros
    all_goals first
      | exact fun h => absurd rfl h
      | exact fun _ => commutes_field fun _ _ => rfl
      | exact fun _ hm => absurd hm List.not_mem_nil

theorem broker_section :
    field "mqtt" (readSection "MqttConfig" BrokerSettings.fields Settings.standard.broker)
      (fun v c => { c with broker := v }) ∈ Settings.fields := .tail _ (.tail _ (.head _))

/-- What stands at the path of a setting gives its text and decides nothing else. -/
theorem ofNode_put (hfound : t.find? s.path = some leaf) (hleaf : leaf.asText = .ok u)
    (hx : x.IsLeaf) (hw : x.asText = .ok w) :
    Settings.ofNode (t.put s.path x) = (Settings.ofNode t).map (s.put w) := by
  have hothers {section_ : String} (he : s.path.head? = some section_) :
      ∀ g ∈ Settings.fields, g.name ≠ section_ → g.Commutes (s.put w) :=
    fun g hg hne => sections_commute s w g hg fun h => hne (Option.some.inj (h.trans he))
  cases s
  case' host =>
    refine ofNode_exchanged (fun v b => { b with host := v }) (.head _) (hothers rfl) (.head _)
      (by decide) ?_ (fun _ _ => rfl) (fun _ _ => rfl) hfound hleaf hx hw
  case' databaseUrl =>
    refine ofNode_exchanged (fun v b => { b with url := v }) (.tail _ (.head _)) (hothers rfl)
      (.head _) (by decide) ?_ (fun _ _ => rfl) (fun _ _ => rfl) hfound hleaf hx hw
  case' brokerServer =>
    refine ofNode_exchanged (fun v b => { b with server := v }) broker_section (hothers rfl)
      (.head _) (by decide) ?_ (fun _ _ => rfl) (fun _ _ => rfl) hfound hleaf hx hw
  case' username =>
    refine ofNode_exchanged (fun v b => { b with username := v }) broker_section (hothers rfl)
      (.tail _ (.head _)) (by decide) ?_ (fun _ _ => rfl) (fun _ _ => rfl) hfound hleaf hx hw
  case' password =>
    refine ofNode_exchanged (fun v b => { b with password := v }) broker_section (hothers rfl)
      (.tail _ (.tail _ (.head _))) (by decide) ?_ (fun _ _ => rfl) (fun _ _ => rfl) hfound hleaf
      hx hw
  case' clientId =>
    refine ofNode_exchanged (fun v b => { b with clientId := v }) broker_section (hothers rfl)
      (.tail _ (.tail _ (.tail _ (.head _)))) (by decide) ?_ (fun _ _ => rfl) (fun _ _ => rfl)
      hfound hleaf hx hw
  -- The other settings of the section are each put in beside this one.
  all_goals
    simp only [ServerSettings.fields, DatabaseSettings.fields, BrokerSettings.fields,
      List.forall_mem_cons]
    and_intros
    all_goals first
      | exact fun h => absurd rfl h
      | exact fun _ => commutes_field fun _ _ => rfl
      | exact fun _ hm => absurd hm List.not_mem_nil

/-- The variable is one of this setting. Case does not count in its name. -/
def NamedBy (s : TextSetting) (name : String) : Prop :=
  ∃ key, settingName name = some key ∧ readPath key = s.path.map .name

/-- The variable belongs to no setting, or to one that this setting has nothing to do with. -/
def SparedBy (s : TextSetting) (name : String) : Prop :=
  ∀ key, settingName name = some key → Node.Parted (readPath key) s.path

theorem namedBy_variableName (s : TextSetting) : s.NamedBy s.variableName := by
  refine ⟨".".intercalate s.path, ?_, ?_⟩ <;> cases s <;> decide

/-- A place among the variables where the text of a setting is found: behind it, nothing touches the
setting any more. -/
structure Place (s : TextSetting) where
  before : Environment
  name : String
  after : Environment
  named : s.NamedBy name
  spared : ∀ y ∈ after, s.SparedBy y.1

/-- The variables, with a text at the place. -/
def Place.holding (p : s.Place) (text : String) : Environment :=
  p.before ++ (p.name, text) :: p.after

end TextSetting

/-- The tree of the files for a mode. -/
def fileTree (files : Files) (mode : String) : Except Fault Node := do
  let general ← readFile files "config/default"
  let special ← readFile files ("config/" ++ mode)
  .ok ((Node.emptyTable.absorb general).absorb special)

theorem gather_eq (files : Files) (e : Environment) :
    gather files e = (fileTree files (runMode (environment files e))).map
      (·.absorb (environment files e).members) := by
  rw [gather, fileTree]
  cases readFile files "config/default" with
  | error fault => rfl
  | ok general =>
    cases readFile files ("config/" ++ runMode (environment files e)) with
    | error fault => rfl
    | ok special => rfl

namespace TextSetting

variable {s : TextSetting}

theorem members_holding {key : String} (p : s.Place) (hkey : settingName p.name = some key)
    (text : String) :
    (p.holding text).members = p.before.members ++ (key, leafOf text) :: p.after.members := by
  simp only [Place.holding, Environment.members, List.filterMap_append, List.filterMap_cons, hkey,
    Option.map_some]
  rfl

theorem spared_members (p : s.Place) : Node.Spared s.path p.after.members := by
  intro m hm
  obtain ⟨y, hy, he⟩ := List.mem_filterMap.mp hm
  obtain ⟨key, hkey, rfl⟩ := Option.map_eq_some_iff.mp he
  exact p.spared y hy key hkey

/-- The mode of the service is no setting, so it stays as it is when the text of one is another. -/
theorem runMode_holding (p : s.Place) (v w : String) :
    runMode (p.holding w) = runMode (p.holding v) := by
  have hname : "RUN_MODE" ≠ p.name := by
    intro h
    obtain ⟨key, hkey, -⟩ := p.named
    rw [← h] at hkey
    cases hkey
  have hlookup (text : String) :
      (p.holding text).lookup "RUN_MODE" = (p.before ++ p.after).lookup "RUN_MODE" := by
    rw [Place.holding, List.lookup_append, List.lookup_append, List.lookup_cons,
      beq_eq_false_iff_ne.mpr hname]
  rw [runMode, runMode, Environment.get?, Environment.get?, hlookup w, hlookup v]

/-- Where another text is found for a setting, the tree holds its scalar in place of the old one. -/
theorem absorb_holding (p : s.Place) (t : Node) (v w : String) :
    (t.absorb (p.holding v).members).find? s.path = some (leafOf v) ∧
      t.absorb (p.holding w).members = (t.absorb (p.holding v).members).put s.path (leafOf w) := by
  obtain ⟨key, hkey, hpath⟩ := p.named
  have hfound (t : Node) (text : String) :
      (t.put s.path (leafOf text)).find? s.path = some (leafOf text) :=
    Node.find?_put t (isLeaf_leafOf text) s.path_ne_nil
  -- The text gets in behind the variables before it and is passed over by those behind it.
  have habsorb (text : String) : t.absorb (p.holding text).members =
      ((t.absorb p.before.members).put s.path (leafOf text)).absorb p.after.members := by
    rw [members_holding p hkey, Node.absorb_append, Node.put, ← hpath]
    rfl
  rw [habsorb v, habsorb w]
  constructor
  · rw [Node.find?_absorb (spared_members p), hfound]
  · rw [← Node.absorb_put (spared_members p) (hfound _ v),
      Node.put_twice _ (isLeaf_leafOf v) (isLeaf_leafOf w) s.path_ne_nil]

/-- Where another text is found for a setting, the same settings are loaded but for this one, or
loading fails for the same reason. -/
theorem load_holding (p : s.Place) (hv : environment files e = p.holding v)
    (hw : environment files e' = p.holding w) :
    load files e' = (load files e).map (s.put (taken w)) := by
  rw [load, load, gather_eq, gather_eq, hv, hw, runMode_holding p v w]
  cases fileTree files (runMode (p.holding v)) with
  | error fault => rfl
  | ok t =>
    obtain ⟨hfound, hput⟩ := absorb_holding p t v w
    change Settings.ofNode (t.absorb (p.holding w).members) =
      (Settings.ofNode (t.absorb (p.holding v).members)).map (s.put (taken w))
    rw [hput]
    exact ofNode_put hfound (asText_leafOf v) (isLeaf_leafOf w) (asText_leafOf w)

/-- The only variable, among no others and without files. -/
def Place.only (s : TextSetting) : s.Place :=
  ⟨[], s.variableName, [], namedBy_variableName s, nofun⟩

theorem load_alone (s : TextSetting) (text : String) :
    load [] ((Place.only s).holding text) = .ok (s.put (taken text) Settings.standard) := by
  obtain ⟨key, hkey, hpath⟩ := namedBy_variableName s
  have hgather : gather [] ((Place.only s).holding text) =
      .ok (Node.emptyTable.put s.path (leafOf text)) := by
    rw [gather_eq, Node.put, ← hpath]
    change Except.ok (Node.emptyTable.absorb ((Place.only s).holding text).members) = _
    rw [members_holding (Place.only s) hkey]
    rfl
  -- What the text looks like is open, so it takes the place of one that is read by computing.
  let blank : Node := .scalar (.text "") none
  have hblank : Settings.ofNode (Node.emptyTable.put s.path blank) =
      .ok (s.put "" Settings.standard) := by
    cases s <;> rfl
  have hfound : (Node.emptyTable.put s.path blank).find? s.path = some blank :=
    Node.find?_put _ trivial s.path_ne_nil
  have htwice : (Node.emptyTable.put s.path blank).put s.path (leafOf text) =
      Node.emptyTable.put s.path (leafOf text) :=
    Node.put_twice _ trivial (isLeaf_leafOf text) s.path_ne_nil
  rw [load, hgather]
  change Settings.ofNode (Node.emptyTable.put s.path (leafOf text)) = _
  rw [← htwice, ofNode_put hfound rfl (isLeaf_leafOf text) (asText_leafOf text), hblank]
  exact congrArg Except.ok (put_put s "" (taken text) Settings.standard)

/-- A text that is found for a setting is loaded as it is exactly when it is how its scalar is
written. Whatever it is, it decides nothing but this setting, and on its own it is always loaded. -/
theorem unchanged_iff (p : s.Place) (he : environment files e = p.holding v) :
    (∀ c, load files e = .ok c → (s.get c = v ↔ Lasting v)) ∧
      (∀ e' w, environment files e' = p.holding w →
        load files e' = (load files e).map (s.put (taken w))) ∧
      load [] ((Place.only s).holding v) = .ok (s.put (taken v) Settings.standard) := by
  refine ⟨fun c hc => ?_, fun e' w hw => load_holding p he hw, load_alone s v⟩
  have hload := load_holding p he he
  rw [hc] at hload
  have hget : s.get c = taken v := by
    rw [Except.ok.inj hload]
    exact get_put s (taken v) c
  rw [hget, taken_eq_iff]

/-- A password of letters stays as it is. -/
theorem unchanged_letters : ∃ c, load [] [("LORA_NOTIFY_MQTT__PASSWORD", "secret")] = .ok c ∧
    c.broker.password = "secret" := by
  have htruth : ¬IsTruth "secret" := by
    unfold IsTruth
    decide
  have hlasting : Lasting "secret" := by
    refine ⟨fun h => absurd h htruth, ?_, ?_⟩
    · rintro - ⟨n, hn⟩
      cases hn
    · rintro - - d hd
      cases hd
  refine ⟨_, load_alone password "secret", ?_⟩
  exact ((unchanged_iff (Place.only password) rfl).1 _ (load_alone password "secret")).mpr hlasting

/-- A password of digits that starts with zeros loses them. -/
theorem zeros_get_lost : ∃ c, load [] [("LORA_NOTIFY_MQTT__PASSWORD", "007")] = .ok c ∧
    c.broker.password = "7" ∧ c.broker.password ≠ "007" := by
  have htaken : taken "007" = "7" := by
    have hscalar : Scalar.ofText "007" = .int 7 := rfl
    have hdigits : Text.Decimal.ofInt 7 = ['7'] := by
      change Text.Decimal.digits 7 = ['7']
      rw [Text.Decimal.digits]
      rfl
    rw [taken, hscalar, Scalar.text?, hdigits]
    rfl
  refine ⟨_, load_alone password "007", htaken, ?_⟩
  change taken "007" ≠ "007"
  rw [htaken]
  decide

end TextSetting

end Uplink.Configuration
