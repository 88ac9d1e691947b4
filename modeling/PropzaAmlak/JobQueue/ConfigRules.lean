import PropzaAmlak.JobQueue.Config

/-! What a configuration can say, and what the manager is like afterwards. -/

namespace JobQueue

open ChannelQueue Channel Channels Text Manager

variable {text configString item : List Char} {bad : List Char} {sep : Char} {pieces : List (List Char)}
  {config config' : ChannelConfig} {configs : List ChannelConfig} {e : ConfigError}

/-- A text as it comes out of the splits: stripped, and without separators. -/
def Plain (bad text : List Char) : Prop := Stripped text ∧ ∀ c ∈ bad, c ∉ text

theorem plain_splitStrip (h : ∀ c ∈ bad, c ∉ text) (hi : item ∈ splitStrip text sep) : Plain (sep :: bad) item := by
  obtain ⟨piece, hpiece, rfl⟩ := List.mem_map.mp hi
  obtain ⟨hsep, hmem⟩ := mem_splitOn hpiece
  refine ⟨stripped_strip, fun c hc hin => ?_⟩
  have hin' := mem_strip hin
  rcases List.mem_cons.mp hc with rfl | hc
  · exact hsep hin'
  · exact h c hc (hmem c hin')

theorem splitStrip_intercalate (hne : pieces ≠ []) (h : ∀ piece ∈ pieces, Stripped piece ∧ sep ∉ piece) :
    splitStrip ([sep].intercalate pieces) sep = pieces := by
  rw [splitStrip, List.splitOn_intercalate sep (fun piece hp => (h piece hp).2) hne]
  exact (List.map_congr_left fun piece hp => (h piece hp).1).trans (List.map_id pieces)

theorem mem_of_mem_intercalate {c : Char} (h : c ∈ [sep].intercalate pieces) :
    c = sep ∨ ∃ piece ∈ pieces, c ∈ piece := by
  induction pieces with
  | nil => simp at h
  | cons first others ih =>
    cases others with
    | nil => exact Or.inr ⟨first, List.mem_cons_self, by simpa using h⟩
    | cons second others =>
      rw [List.intercalate_cons_cons, List.append_assoc, List.mem_append, List.mem_append, List.mem_singleton] at h
      rcases h with h | h | h
      · exact Or.inr ⟨first, List.mem_cons_self, h⟩
      · exact Or.inl h
      · exact (ih h).imp_right fun ⟨piece, hp, hc⟩ => ⟨piece, List.mem_cons_of_mem _ hp, hc⟩

namespace ChannelConfig

structure WellFormed (config : ChannelConfig) : Prop where
  name : config.name ≠ ""
  plain : Plain [':', ',', '\n'] config.name.toList
  options : ∀ o ∈ config.options, Plain ['=', ':', ',', '\n'] o.1.toList ∧
    ∀ v ∈ o.2, Plain ['=', ':', ',', '\n'] v.toList
  distinct : config.keys.Nodup

def renderOption : String × Option String → List Char
  | (k, none) => k.toList
  | (k, some v) => k.toList ++ '=' :: v.toList

def render (config : ChannelConfig) : List Char :=
  [':'].intercalate (config.name.toList :: str config.capacity :: config.options.map renderOption)

end ChannelConfig

open ChannelConfig

/-! ### What is accepted is well formed -/

theorem wellFormed_parseOptions {items : List (List Char)} (h : parseOptions configString items config = .ok config')
    (hi : ∀ item ∈ items, ∀ c ∈ [':', ',', '\n'], c ∉ item) (hc : config.WellFormed) : config'.WellFormed := by
  induction items generalizing config with
  | nil =>
    obtain rfl := Except.ok.inj h
    exact hc
  | cons item items ih =>
    rw [parseOptions] at h
    have hplain : ∀ piece ∈ splitStrip item '=', Plain ['=', ':', ',', '\n'] piece :=
      fun piece hp => plain_splitStrip (hi item List.mem_cons_self) hp
    split at h
    · cases h
    · rename_i k v hkv
      split at h
      · cases h
      · rename_i hkey
        refine ih h (fun item' hmem => hi item' (List.mem_cons_of_mem _ hmem)) ⟨hc.name, hc.plain, fun o ho => ?_, ?_⟩
        · rcases List.mem_append.mp ho with ho | ho
          · exact hc.options o ho
          · obtain rfl := List.mem_singleton.mp ho
            rw [keyValue] at hkv
            split at hkv
            · rename_i k' hsplit
              obtain ⟨rfl, rfl⟩ := Prod.mk.inj (Except.ok.inj hkv)
              rw [String.toList_ofList]
              exact ⟨hplain k' (hsplit ▸ List.mem_cons_self), by simp⟩
            · rename_i k' v' hsplit
              obtain ⟨rfl, rfl⟩ := Prod.mk.inj (Except.ok.inj hkv)
              rw [String.toList_ofList]
              refine ⟨hplain k' (hsplit ▸ List.mem_cons_self), fun v hv => ?_⟩
              obtain rfl := Option.some.inj hv
              rw [String.toList_ofList]
              exact hplain v' (hsplit ▸ List.mem_cons_of_mem _ List.mem_cons_self)
            · cases hkv
        · rw [keys, List.map_append, List.map_singleton, ← List.cons_append, ← List.cons_append, List.nodup_append_comm]
          exact List.nodup_cons.mpr ⟨hkey, hc.distinct⟩

theorem wellFormed_parseChannel (h : parseChannel configString text = .ok config) (ht : ∀ c ∈ [',', '\n'], c ∉ text) :
    config.WellFormed := by
  have hplain : ∀ piece ∈ splitStrip text ':', Plain [':', ',', '\n'] piece := fun piece hp => plain_splitStrip ht hp
  rw [parseChannel] at h
  split at h
  · cases h
  · rename_i name items hsplit
    split at h
    · cases h
    · rename_i hname
      have hnew : ∀ n : Int, (⟨String.ofList name, n, []⟩ : ChannelConfig).WellFormed := by
        intro n
        refine ⟨fun hempty => hname ?_, ?_, by simp, by simp [keys]⟩
        · simpa using congrArg String.toList hempty
        · rw [String.toList_ofList]
          exact hplain name (hsplit ▸ List.mem_cons_self)
      split at h
      · obtain rfl := Except.ok.inj h
        exact hnew 1
      · rename_i capacity items
        split at h
        · cases h
        · refine wellFormed_parseOptions h (fun item hi => (hplain item ?_).2) (hnew _)
          rw [hsplit]
          exact List.mem_cons_of_mem _ (List.mem_cons_of_mem _ hi)

theorem wellFormed_parseEntries {entries : List (List Char)} (h : parseEntries configString entries = .ok configs)
    (he : ∀ entry ∈ entries, ∀ c ∈ [',', '\n'], c ∉ entry) : ∀ config ∈ configs, config.WellFormed := by
  induction entries generalizing configs with
  | nil =>
    obtain rfl := Except.ok.inj h
    simp
  | cons entry entries ih =>
    have hothers : ∀ entry ∈ entries, ∀ c ∈ [',', '\n'], c ∉ entry := fun e hmem => he e (List.mem_cons_of_mem _ hmem)
    rw [parseEntries] at h
    split at h
    · exact ih h hothers
    · split at h
      · cases h
      · rename_i config hconfig
        split at h
        · cases h
        · rename_i rest hrest
          obtain rfl := Except.ok.inj h
          intro c hc
          rcases List.mem_cons.mp hc with rfl | hc
          · exact wellFormed_parseChannel hconfig (he entry List.mem_cons_self)
          · exact ih hrest hothers c hc

theorem wellFormed_parseSimpleConfig {s : String} (h : parseSimpleConfig s = .ok configs) :
    ∀ config ∈ configs, config.WellFormed := by
  refine wellFormed_parseEntries h fun entry he => ?_
  refine (plain_splitStrip (fun c hc => ?_) he).2
  rw [List.mem_singleton] at hc
  subst hc
  intro hmem
  obtain ⟨d, -, hd⟩ := List.mem_map.mp hmem
  split at hd
  · cases hd
  · rename_i hne
    exact hne hd

/-! ### What is well formed is read back -/

theorem keyValue_renderOption {o : String × Option String} (hk : Plain ['=', ':', ',', '\n'] o.1.toList)
    (hv : ∀ v ∈ o.2, Plain ['=', ':', ',', '\n'] v.toList) : keyValue configString (renderOption o) = .ok o := by
  obtain ⟨k, v⟩ := o
  cases v with
  | none =>
    have hsplit : splitStrip k.toList '=' = [k.toList] := by
      have hone : splitStrip (['='].intercalate [k.toList]) '=' = [k.toList] :=
        splitStrip_intercalate (by simp) (by simpa using ⟨hk.1, hk.2 '=' (by simp)⟩)
      simpa using hone
    rw [keyValue, renderOption, hsplit]
    dsimp only
    rw [String.ofList_toList]
  | some v =>
    have hv := hv v rfl
    have hsplit : splitStrip (k.toList ++ '=' :: v.toList) '=' = [k.toList, v.toList] := by
      have htwo : splitStrip (['='].intercalate [k.toList, v.toList]) '=' = [k.toList, v.toList] := by
        refine splitStrip_intercalate (by simp) fun piece hp => ?_
        rcases List.mem_cons.mp hp with rfl | hp
        · exact ⟨hk.1, hk.2 '=' (by simp)⟩
        · obtain rfl := List.mem_singleton.mp hp
          exact ⟨hv.1, hv.2 '=' (by simp)⟩
      simpa [List.intercalate_cons_cons] using htwo
    rw [keyValue, renderOption, hsplit]
    dsimp only
    rw [String.ofList_toList, String.ofList_toList]

theorem parseOptions_render {options : List (String × Option String)}
    (ho : ∀ o ∈ options, Plain ['=', ':', ',', '\n'] o.1.toList ∧ ∀ v ∈ o.2, Plain ['=', ':', ',', '\n'] v.toList)
    (hd : (config.keys ++ options.map Prod.fst).Nodup) :
    parseOptions configString (options.map renderOption) config =
      .ok { config with options := config.options ++ options } := by
  induction options generalizing config with
  | nil => simp [parseOptions]
  | cons o options ih =>
    obtain ⟨hk, hv⟩ := ho o List.mem_cons_self
    have hkey : o.1 ∉ config.keys := by
      intro hmem
      exact (List.disjoint_of_nodup_append hd) hmem List.mem_cons_self
    rw [List.map_cons, parseOptions, keyValue_renderOption hk hv]
    dsimp only
    rw [if_neg hkey, ih fun o' ho' => ho o' (List.mem_cons_of_mem _ ho')]
    · rw [List.append_assoc, List.singleton_append]
    · rw [keys, List.map_append, List.map_singleton, ← List.cons_append, ← List.cons_append, List.append_assoc,
        List.singleton_append]
      exact hd

theorem plain_renderOption {o : String × Option String} (hk : Plain ['=', ':', ',', '\n'] o.1.toList)
    (hv : ∀ v ∈ o.2, Plain ['=', ':', ',', '\n'] v.toList) : Plain [':', ',', '\n'] (renderOption o) := by
  obtain ⟨k, v⟩ := o
  cases v with
  | none => exact ⟨hk.1, fun c hc => hk.2 c (List.mem_cons_of_mem _ hc)⟩
  | some v =>
    have hv := hv v rfl
    refine ⟨hk.1.join hv.1 (by decide), fun c hc hmem => ?_⟩
    rw [renderOption, List.mem_append, List.mem_cons] at hmem
    rcases hmem with hmem | rfl | hmem
    · exact hk.2 c (List.mem_cons_of_mem _ hc) hmem
    · simp at hc
    · exact hv.2 c (List.mem_cons_of_mem _ hc) hmem

theorem plain_str {i : Int} : Plain [':', ',', '\n'] (str i) := by
  refine ⟨stripped_str, fun c hc hmem => ?_⟩
  rcases digit_or_minus_of_mem_str hmem with rfl | hdigit
  · simp at hc
  · simp only [List.mem_cons, List.not_mem_nil, or_false] at hc
    rcases hc with rfl | rfl | rfl <;> simp at hdigit

/-- The pieces of a rendered configuration. -/
theorem ChannelConfig.WellFormed.plain_pieces (h : config.WellFormed) :
    ∀ piece ∈ config.name.toList :: str config.capacity :: config.options.map renderOption,
      Plain [':', ',', '\n'] piece := by
  intro piece hp
  rcases List.mem_cons.mp hp with rfl | hp
  · exact h.plain
  · rcases List.mem_cons.mp hp with rfl | hp
    · exact plain_str
    · obtain ⟨o, ho, rfl⟩ := List.mem_map.mp hp
      exact plain_renderOption (h.options o ho).1 (h.options o ho).2

theorem ChannelConfig.WellFormed.plain_render (h : config.WellFormed) : Plain [',', '\n'] config.render := by
  refine ⟨stripped_intercalate (fun piece hp => (h.plain_pieces piece hp).1) (by decide), fun c hc hmem => ?_⟩
  rcases mem_of_mem_intercalate hmem with rfl | ⟨piece, hp, hin⟩
  · simp at hc
  · exact (h.plain_pieces piece hp).2 c (List.mem_cons_of_mem _ hc) hin

theorem render_ne_nil : config.render ≠ [] := by
  intro hnil
  rw [render, List.intercalate_cons_cons] at hnil
  simp at hnil

theorem ChannelConfig.WellFormed.parseChannel_render (h : config.WellFormed) :
    parseChannel configString config.render = .ok config := by
  have hsplit : splitStrip config.render ':' =
      config.name.toList :: str config.capacity :: config.options.map renderOption :=
    splitStrip_intercalate (by simp) fun piece hp => ⟨(h.plain_pieces piece hp).1,
      (h.plain_pieces piece hp).2 ':' (by simp)⟩
  have hname : config.name.toList ≠ [] := by
    intro hnil
    exact h.name (by simpa using hnil)
  rw [parseChannel, hsplit]
  dsimp only
  rw [if_neg hname, int_str]
  dsimp only
  have hdistinct : ((⟨String.ofList config.name.toList, config.capacity, []⟩ : ChannelConfig).keys ++
      config.options.map Prod.fst).Nodup := h.distinct
  rw [parseOptions_render h.options hdistinct, String.ofList_toList, List.nil_append]

theorem parseEntries_render (h : ∀ config ∈ configs, config.WellFormed) :
    parseEntries configString (configs.map render) = .ok configs := by
  induction configs with
  | nil => rfl
  | cons config configs ih =>
    have hc := h config List.mem_cons_self
    rw [List.map_cons, parseEntries, if_neg render_ne_nil, hc.parseChannel_render,
      ih fun c hmem => h c (List.mem_cons_of_mem _ hmem)]

def renderAll (configs : List ChannelConfig) : String := String.ofList ([','].intercalate (configs.map render))

theorem parseSimpleConfig_renderAll (h : ∀ config ∈ configs, config.WellFormed) :
    parseSimpleConfig (renderAll configs) = .ok configs := by
  have hplain : ∀ piece ∈ configs.map render, Plain [',', '\n'] piece := by
    intro piece hp
    obtain ⟨config, hc, rfl⟩ := List.mem_map.mp hp
    exact (h config hc).plain_render
  have hlines : ([','].intercalate (configs.map render)).map (fun c => if c = '\n' then ',' else c) =
      [','].intercalate (configs.map render) := by
    refine (List.map_congr_left fun c hc => ?_).trans (List.map_id _)
    rcases mem_of_mem_intercalate hc with rfl | ⟨piece, hp, hin⟩
    · rfl
    · refine if_neg ?_
      rintro rfl
      exact (hplain piece hp).2 '\n' (by simp) hin
  rw [parseSimpleConfig, renderAll, String.toList_ofList, hlines]
  by_cases hnil : configs = []
  · subst hnil
    rfl
  · rw [splitStrip_intercalate (by simpa using hnil) fun piece hp => ⟨(hplain piece hp).1,
      (hplain piece hp).2 ',' (by simp)⟩]
    exact parseEntries_render h

/-- What is accepted is well formed, and it is read back from what it is written as. -/
theorem accepted_read_back {s : String} (h : parseSimpleConfig s = .ok configs) :
    (∀ config ∈ configs, config.WellFormed) ∧ parseSimpleConfig (renderAll configs) = .ok configs :=
  ⟨wellFormed_parseSimpleConfig h, parseSimpleConfig_renderAll (wellFormed_parseSimpleConfig h)⟩

/-- Spaces and empty entries are dropped. -/
def spaced : List ChannelConfig := [⟨"root", 4, []⟩, ⟨"foo bar", 1, [("k", some "va lue"), ("sequential", none)]⟩]

theorem spaced_read_back :
    (∀ config ∈ spaced, config.WellFormed) ∧ parseSimpleConfig (renderAll spaced) = .ok spaced :=
  accepted_read_back (s := "\n root : 4,\n ,\n foo bar:1: k=va lue:sequential,\n") rfl

/-! ### The manager afterwards -/

namespace Manager

variable {m m' : Manager} {children : Subchannels} {p : Path} {c c' : Channel} {name : String}

/-- The channel that a name stands for. -/
def pathOf (name : String) : Path := if name = "" ∨ name = "root" then [] else (namesOf name).reverse

theorem getChannelByName_autocreate (children : Subchannels) (name : String) :
    ∃ children', getChannelByName children name true false = .ok (pathOf name, children') ∧
      children'.IsChannel (pathOf name) ∧ (children.Distinct → children'.Distinct) ∧
      ∀ q, children.IsChannel q → children'.IsChannel q := by
  rw [getChannelByName, pathOf]
  by_cases hroot : name = "" ∨ name = "root"
  · rw [if_pos hroot, if_pos hroot]
    exact ⟨children, rfl, Or.inl rfl, id, fun _ => id⟩
  · rw [if_neg hroot, if_neg hroot]
    by_cases hknown : children.contains (namesOf name)
    · refine ⟨children, ?_, Subchannels.isChannel_of_contains hknown, id, fun _ => id⟩
      simp only [hknown, if_true]
    · have hnew := Subchannels.isChannel_of_contains (Subchannels.contains_addPath children (namesOf name))
      refine ⟨children.addPath (namesOf name), ?_, hnew, Subchannels.distinct_addPath,
        fun q hq => hq.imp_right Subchannels.has_addPath⟩
      simp [hknown]

theorem toList_fullname (p : Path) :
    (fullname p).toList = ['.'].intercalate ("root".toList :: p.reverse.map String.toList) := by
  rw [fullname, String.toList_intercalate]
  rfl

theorem map_toList_splitName : (splitName name).map String.toList = name.toList.splitOn '.' := by
  rw [splitName, List.map_map]
  refine (List.map_congr_left fun l _ => ?_).trans (List.map_id _)
  exact String.toList_ofList

/-- The assertion of `configure`. -/
theorem name_suffix_fullname (hname : name ≠ "") : name.toList <:+ (fullname (pathOf name)).toList := by
  rw [pathOf]
  by_cases hroot : name = "" ∨ name = "root"
  · rw [if_pos hroot, hroot.resolve_left hname]
    exact List.suffix_rfl
  · rw [if_neg hroot, toList_fullname, List.reverse_reverse, namesOf]
    by_cases hprefix : "root.".toList.isPrefixOf name.toList
    · rw [if_pos hprefix]
      obtain ⟨rest, hrest⟩ := List.isPrefixOf_iff_prefix.mp hprefix
      have hsplit : name.toList.splitOn '.' = "root".toList :: rest.splitOn '.' := by
        rw [← hrest]
        have hroot : '.' ∉ "root".toList := by decide
        exact List.splitOn_append_cons_self_of_not_mem hroot rest
      have htail : (splitName name).tail.map String.toList = rest.splitOn '.' := by
        rw [List.map_tail, map_toList_splitName, hsplit, List.tail_cons]
      rw [htail, ← hsplit, List.intercalate_splitOn]
    · rw [if_neg hprefix, map_toList_splitName, List.intercalate_cons_of_ne_nil (List.splitOn_ne_nil _ _),
        List.intercalate_splitOn]
      exact List.suffix_append _ _

/-- The channel is as this entry of the configuration says. -/
structure SetBy (config : ChannelConfig) (c : Channel) : Prop where
  capacity : c.capacity = some config.capacity
  sequential : c.queue.sequential = sequentialOf config
  throttle : throttleOf config = .ok c.throttle
  inTurn : c.queue.sequential → c.capacity = some 1

theorem setBy_configure (h : configure p config c = .ok c') :
    SetBy config c' ∧ c' = { c with
      queue := { c.queue with sequential := c'.queue.sequential }, capacity := c'.capacity,
      throttle := c'.throttle } := by
  rw [configure] at h
  split at h
  · cases h
  · split at h
    · cases h
    · rename_i throttle hthrottle
      split at h
      · cases h
      · rename_i hseq
        obtain rfl := Except.ok.inj h
        refine ⟨⟨rfl, rfl, hthrottle, fun hs => ?_⟩, rfl⟩
        by_cases hone : config.capacity = 1
        · exact congrArg some hone
        · exact (hseq ⟨hs, hone⟩).elim

/-- The entry that a channel gets its settings from. -/
def lastFor (p : Path) : List ChannelConfig → Option ChannelConfig
  | [] => none
  | config :: configs =>
    match lastFor p configs with
    | some last => some last
    | none => if pathOf config.name = p then some config else none

/-- The channels are configured by the entries, and otherwise as they were. -/
structure Configured (configs : List ChannelConfig) (m m' : Manager) : Prop where
  idle : m'.Idle
  setBy : ∀ p config, lastFor p configs = some config → SetBy config (m'.channels.channel p)
  others : ∀ p, lastFor p configs = none → m'.channels.channel p = m.channels.channel p
  isChannel : ∀ p, m.children.IsChannel p ∨ (lastFor p configs).isSome → m'.children.IsChannel p

theorem Idle.getChannelFromConfig (hm : m.Idle) (h : getChannelFromConfig config m = .ok m') :
    Configured [config] m m' := by
  obtain ⟨children, hget, hpath, hdistinct, hmono⟩ := getChannelByName_autocreate m.children config.name
  rw [Manager.getChannelFromConfig, hget] at h
  dsimp only at h
  split at h
  · cases h
  · rename_i c hc
    obtain rfl := Except.ok.inj h
    obtain ⟨hset, heq⟩ := setBy_configure hc
    have hlast : ∀ p, lastFor p [config] = if pathOf config.name = p then some config else none := fun _ => rfl
    refine ⟨⟨hdistinct hm.distinct, hm.jobsByUuid, fun p => ?_, fun p hp => ?_⟩, fun p config' hp => ?_, fun p hp => ?_,
      fun p hp => ?_⟩
    · by_cases hpath : p = pathOf config.name
      · subst hpath
        rw [channel_modify_self, heq, hm.empty (pathOf config.name)]
      · rw [channel_modify_of_ne hpath]
        exact hm.empty p
    · have hne : p ≠ pathOf config.name := by
        rintro rfl
        exact hp hpath
      rw [channel_modify_of_ne hne]
      exact hm.fresh p fun hc => hp (hmono p hc)
    · rw [hlast] at hp
      split at hp
      · rename_i hpath
        obtain rfl := Option.some.inj hp
        rw [← hpath, channel_modify_self]
        exact hset
      · cases hp
    · rw [hlast] at hp
      split at hp
      · cases hp
      · rename_i hpath
        have hne : p ≠ pathOf config.name := fun hc => hpath hc.symm
        rw [channel_modify_of_ne hne]
    · rcases hp with hp | hp
      · exact hmono p hp
      · rw [hlast] at hp
        split at hp
        · rename_i heq
          exact heq ▸ hpath
        · cases hp

theorem Idle.configureAll (hm : m.Idle) (h : configureAll configs m = .ok m') : Configured configs m m' := by
  induction configs generalizing m with
  | nil =>
    obtain rfl := Except.ok.inj h
    refine ⟨hm, fun p config hp => ?_, fun _ _ => rfl, fun p hp => ?_⟩
    · cases hp
    · refine hp.elim id fun hc => ?_
      cases hc
  | cons config configs ih =>
    rw [Manager.configureAll] at h
    split at h
    · cases h
    · rename_i m₁ hm₁
      have hfirst := hm.getChannelFromConfig hm₁
      have hrest := ih hfirst.idle h
      have hlast : ∀ p, lastFor p (config :: configs) = (lastFor p configs).or (lastFor p [config]) := by
        intro p
        rw [lastFor]
        cases lastFor p configs <;> rfl
      refine ⟨hrest.idle, fun p config' hp => ?_, fun p hp => ?_, fun p hp => ?_⟩
      · rw [hlast] at hp
        cases hl : lastFor p configs with
        | some last =>
          rw [hl] at hp
          exact hrest.setBy p config' (hl.trans hp)
        | none =>
          rw [hl, Option.none_or] at hp
          rw [hrest.others p hl]
          exact hfirst.setBy p config' hp
      · rw [hlast, Option.or_eq_none_iff] at hp
        rw [hrest.others p hp.1, hfirst.others p hp.2]
      · rw [hlast] at hp
        refine hrest.isChannel p ?_
        cases hl : lastFor p configs with
        | some last => exact Or.inr rfl
        | none =>
          rw [hl, Option.none_or] at hp
          exact Or.inl (hfirst.isChannel p hp)

theorem idle_init : init.Idle := by
  refine ⟨trivial, fun _ => rfl, fun p => ?_, fun p hp => if_neg fun hc => hp (Or.inl hc)⟩
  rw [init]
  dsimp only
  split <;> rfl

/-! ### Configurations in general -/

theorem accepted_config {s : String} (h : simpleConfigure s init = .ok m) :
    ∃ configs, parseSimpleConfig s = .ok configs ∧ Configured configs init m := by
  rw [simpleConfigure] at h
  split at h
  · cases h
  · rename_i configs hconfigs
    exact ⟨configs, hconfigs, idle_init.configureAll h⟩

theorem configure_ne_assertionError (h : config.WellFormed) :
    configure (pathOf config.name) config c ≠ .error .assertionError := by
  intro herror
  rw [configure, if_neg (not_not.mpr (name_suffix_fullname h.name))] at herror
  split at herror
  · rename_i e he
    rw [throttleOf] at he
    split at he
    · cases he
    · cases he
    · split at he
      · obtain rfl := Except.error.inj he
        cases herror
      · cases he
  · split at herror <;> cases herror

theorem configureAll_ne_assertionError (h : ∀ config ∈ configs, config.WellFormed) :
    configureAll configs m ≠ .error .assertionError := by
  induction configs generalizing m with
  | nil =>
    intro hc
    cases hc
  | cons config configs ih =>
    have hconfig := h config List.mem_cons_self
    rw [configureAll, getChannelFromConfig]
    obtain ⟨children, hget, -⟩ := getChannelByName_autocreate m.children config.name
    rw [hget]
    dsimp only
    cases hc : configure (pathOf config.name) config (m.channels.channel (pathOf config.name)) with
    | error e =>
      intro herror
      obtain rfl := Except.error.inj herror
      exact configure_ne_assertionError hconfig hc
    | ok c => exact ih fun c hmem => h c (List.mem_cons_of_mem _ hmem)

theorem keyValue_ne_assertionError : keyValue configString item ≠ .error .assertionError := by
  intro h
  rw [keyValue] at h
  split at h
  · cases h
  · cases h
  · cases h

theorem parseOptions_ne_assertionError {items : List (List Char)} :
    parseOptions configString items config ≠ .error .assertionError := by
  induction items generalizing config with
  | nil =>
    intro h
    cases h
  | cons item items ih =>
    intro h
    rw [parseOptions] at h
    split at h
    · rename_i e he
      obtain rfl := Except.error.inj h
      exact keyValue_ne_assertionError he
    · split at h
      · cases h
      · exact ih h

theorem parseChannel_ne_assertionError : parseChannel configString text ≠ .error .assertionError := by
  intro h
  rw [parseChannel] at h
  split at h
  · cases h
  · split at h
    · cases h
    · split at h
      · cases h
      · split at h
        · cases h
        · exact parseOptions_ne_assertionError h

theorem parseEntries_ne_assertionError {entries : List (List Char)} :
    parseEntries configString entries ≠ .error .assertionError := by
  induction entries with
  | nil =>
    intro h
    cases h
  | cons entry entries ih =>
    intro h
    rw [parseEntries] at h
    split at h
    · exact ih h
    · split at h
      · rename_i e he
        obtain rfl := Except.error.inj h
        exact parseChannel_ne_assertionError he
      · split at h
        · rename_i e he
          obtain rfl := Except.error.inj h
          exact ih he
        · cases h

theorem parseSimpleConfig_ne_assertionError {s : String} : parseSimpleConfig s ≠ .error .assertionError :=
  parseEntries_ne_assertionError

/-- A configuration is refused with an error of its own, or leaves a manager without
jobs in which every channel is as the last entry for it has it. -/
theorem simpleConfigure_configures (s : String) : simpleConfigure s init ≠ .error .assertionError ∧
    ∀ m, simpleConfigure s init = .ok m →
      ∃ configs, parseSimpleConfig s = .ok configs ∧ Configured configs init m := by
  refine ⟨fun herror => ?_, fun m h => accepted_config h⟩
  rw [simpleConfigure] at herror
  split at herror
  · rename_i e he
    obtain rfl := Except.error.inj herror
    exact parseSimpleConfig_ne_assertionError he
  · rename_i configs hconfigs
    exact configureAll_ne_assertionError (wellFormed_parseSimpleConfig hconfigs) herror

theorem sequential_configured : ∃ m, simpleConfigure "root:4,seq:2,seq:1:sequential" init = .ok m ∧
    ∃ configs, parseSimpleConfig "root:4,seq:2,seq:1:sequential" = .ok configs ∧ Configured configs init m :=
  ⟨_, rfl, (simpleConfigure_configures "root:4,seq:2,seq:1:sequential").2 _ rfl⟩

end Manager

end JobQueue
