import AebNode.OptionGroups

/-! The order of the option groups on the command line: only the order of the groups of one
option matters, and the help option stops the parser where it stands. -/
namespace AebNode.CommandLine
open KeyedWrites OptionName

theorem readArgs_tokens (gs : List Group) (rest : List String) :
    readArgs (gs.flatMap Group.tokens ++ rest) = (gs ++ (readArgs rest).1, (readArgs rest).2) := by
  induction gs with
  | nil => rfl
  | cons g gs ih =>
    rw [List.flatMap_cons, List.append_assoc]
    cases g with
    | flag arg hflag =>
      have hhelp : ¬ IsHelp arg := by
        rcases hflag with rfl | rfl <;> decide
      change readArgs (arg :: (gs.flatMap Group.tokens ++ rest)) = _
      rw [readArgs, dif_neg hhelp, dif_pos hflag, ih]
      rfl
    | valued arg value h =>
      change readArgs (arg :: value :: (gs.flatMap Group.tokens ++ rest)) = _
      rw [readArgs, dif_neg h.1, dif_neg h.2]
      dsimp only
      rw [ih]
      rfl

/-- Where the reading ends at a help option, the arguments are the groups and that option. -/
theorem readArgs_help {args : List String} (h : (readArgs args).2 = .help) :
    ∃ help rest, IsHelp help ∧ args = (readArgs args).1.flatMap Group.tokens ++ help :: rest := by
  induction args using readArgs.induct with
  | case1 => cases h
  | case2 arg rest hhelp =>
    refine ⟨arg, rest, hhelp, ?_⟩
    rw [readArgs, dif_pos hhelp]
    rfl
  | case3 arg rest hhelp hflag ih =>
    rw [readArgs, dif_neg hhelp, dif_pos hflag] at h ⊢
    rcases ih h with ⟨help, tail, his, heq⟩
    refine ⟨help, tail, his, ?_⟩
    rw [List.flatMap_cons, List.append_assoc, ← heq]
    rfl
  | case4 arg hhelp hflag =>
    rw [readArgs, dif_neg hhelp, dif_neg hflag] at h
    cases h
  | case5 arg hhelp hflag value rest ih =>
    rw [readArgs, dif_neg hhelp, dif_neg hflag] at h ⊢
    rcases ih h with ⟨help, tail, his, heq⟩
    refine ⟨help, tail, his, ?_⟩
    rw [List.flatMap_cons, List.append_assoc, ← heq]
    rfl

/-- `parse` returns neither options nor a message exactly if it meets a help option in the place
of an option, after valid groups only. -/
theorem parse_help_iff (width : ℕ) (argv : List String) :
    parse width argv = (none, "") ↔ ∃ (gs : List Group) (help : String) (rest : List String), IsHelp help ∧
      argv.drop 1 = gs.flatMap Group.tokens ++ help :: rest ∧ ∀ g ∈ gs, g.Valid width := by
  constructor
  · intro hparse
    have haccepted : Accepted width argv := by
      by_contra hrefused
      exact (parse_refused hrefused).2 (by rw [hparse])
    rcases outcome_valid haccepted.1 defaults (ending argv) with ⟨ws, -, houtcome⟩
    rw [parse_eq, houtcome] at hparse
    cases hend : ending argv with
    | complete => simp [hend, Ending.result] at hparse
    | missing arg => exact absurd hend (haccepted.2 arg)
    | help =>
      rcases readArgs_help hend with ⟨help, rest, his, heq⟩
      exact ⟨groups argv, help, rest, his, heq, haccepted.1⟩
  · rintro ⟨gs, help, rest, his, heq, hvalid⟩
    have hstop : readArgs (help :: rest) = ([], .help) := by rw [readArgs, dif_pos his]
    have hgroups : groups argv = gs := by
      rw [groups, heq, readArgs_tokens, hstop, List.append_nil]
    have hend : ending argv = .help := by rw [ending, heq, readArgs_tokens, hstop]
    rcases outcome_valid hvalid defaults .help with ⟨ws, -, houtcome⟩
    rw [parse_eq, hgroups, hend, houtcome]
    rfl

theorem writes_of_name {width : ℕ} {gs : List Group} {ws : List (Write Content)}
    (hws : gs.mapM (Group.write width) = .ok ws) (n : OptionName) :
    ws.filterMap (writtenTo n) = (gs.filter fun g => g.arg = n.text).filterMap fun g =>
      (g.write width).toOption.bind (writtenTo n) := by
  rw [mapM_write hws, List.filterMap_filterMap, List.filterMap_filter]
  apply List.filterMap_congr
  intro g _
  split_ifs with hname
  · rfl
  · cases hwrite : g.write width with
    | error error => rfl
    | ok w =>
      apply writtenTo_of_ne
      rintro rfl
      rw [Group.write_name hwrite] at hname
      simp at hname

/-- Two lists of groups with the same groups, in the same order for each option. -/
structure SameGroups (gs gs' : List Group) : Prop where
  perm : gs.Perm gs'
  order : ∀ name, (gs.filter fun g => g.arg = name) = gs'.filter fun g => g.arg = name

theorem outcome_same {gs gs' : List Group} (h : SameGroups gs gs') (width : ℕ)
    (contents : ∀ n, Content n) :
    (outcome width contents gs .complete).1 = (outcome width contents gs' .complete).1 := by
  by_cases hvalid : ∀ g ∈ gs, g.Valid width
  · have hvalid' : ∀ g ∈ gs', g.Valid width := fun g hg => hvalid g (h.perm.mem_iff.mpr hg)
    rcases outcome_valid hvalid contents .complete with ⟨ws, hws, houtcome⟩
    rcases outcome_valid hvalid' contents .complete with ⟨ws', hws', houtcome'⟩
    have hwrites : writeAll contents ws = writeAll contents ws' := by
      apply writeAll_congr
      intro n
      rw [writes_of_name hws, writes_of_name hws', h.order]
    rw [houtcome, houtcome', hwrites]
  · have hinvalid : ∃ g ∈ gs, ¬ g.Valid width := by simpa using hvalid
    have hinvalid' : ∃ g ∈ gs', ¬ g.Valid width := by
      rcases hinvalid with ⟨g, hg, hbad⟩
      exact ⟨g, h.perm.mem_iff.mp hg, hbad⟩
    rcases outcome_invalid hinvalid contents .complete with ⟨_, -, houtcome⟩
    rcases outcome_invalid hinvalid' contents .complete with ⟨_, -, houtcome'⟩
    rw [houtcome, houtcome']

theorem parse_tokens (width : ℕ) (program : String) (gs : List Group) :
    parse width (program :: gs.flatMap Group.tokens) = outcome width defaults gs .complete := by
  have hread : readArgs (gs.flatMap Group.tokens) = (gs, .complete) := by
    have htokens := readArgs_tokens gs []
    rwa [List.append_nil, readArgs, List.append_nil] at htokens
  rw [parse_eq, groups, ending, List.drop_one, List.tail_cons, hread]

/-- Option groups may come in any order that keeps the groups of each option in theirs: `parse`
returns the same options, or none for either. And it returns none without a message exactly if it
meets a help option in the place of an option, after valid groups only. -/
theorem option_order (width : ℕ) :
    (∀ (program program' : String) (gs gs' : List Group), SameGroups gs gs' →
      (parse width (program :: gs.flatMap Group.tokens)).1 =
        (parse width (program' :: gs'.flatMap Group.tokens)).1) ∧
    ∀ argv : List String, ((parse width argv).1 = none ∧ (parse width argv).2 = "") ↔
      ∃ (gs : List Group) (help : String) (rest : List String), IsHelp help ∧
        argv.drop 1 = gs.flatMap Group.tokens ++ help :: rest ∧ ∀ g ∈ gs, g.Valid width := by
  constructor
  · intro program program' gs gs' hsame
    rw [parse_tokens, parse_tokens]
    exact outcome_same hsame width defaults
  · intro argv
    rw [← parse_help_iff, Prod.ext_iff]

/-- Two options swapped. -/
theorem option_order_swapped :
    (parse 32 ["aeb_node", "--no-can", "--baud", "115200"]).1 =
        (parse 32 ["aeb_node", "--baud", "115200", "--no-can"]).1 ∧
      (parse 32 ["aeb_node", "--no-can", "--baud", "115200"]).1.isSome = true := by
  have hsame : SameGroups [.flag "--no-can" (by decide), .valued "--baud" "115200" (by decide)]
      [.valued "--baud" "115200" (by decide), .flag "--no-can" (by decide)] := by
    refine ⟨List.Perm.swap .., fun name => ?_⟩
    by_cases hname : "--baud" = name
    · subst hname
      rfl
    · simp [List.filter_cons, Group.arg, hname]
  exact ⟨(option_order 32).1 "aeb_node" "aeb_node" _ _ hsame, by decide +kernel⟩

end AebNode.CommandLine
