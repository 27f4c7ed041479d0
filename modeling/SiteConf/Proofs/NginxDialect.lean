import SiteConf.Dialect.Nginx
import SiteConf.Proofs.BlockWriters
import SiteConf.Proofs.InertText
import SiteConf.Proofs.Loading
import Mathlib

set_option autoImplicit false

/-! # The nginx dialect nests

The template of the dialect is one text. Preprocessing leaves it alone, since none of its lines is
a directive, an inline conditional or has a marker (`result_preprocess_nginx`), and it is read as a
table of writers, a heading and a walk (`parse_nginx`). In the table, `servers` and the items of
`servers` and `locations` have writers that open and close blocks; all others write plain lines
(`matched_field`, `matched_item`). So the output of the dialect nests (`compile_nginx_nests`). -/

namespace SiteConf.Dialect.Nginx

open Template Writer Text SiteConf.Tree

/-! ## The program -/

/-- The writers of the dialect. -/
def table : WriterTable where
  silent := ["site", "locations", "headers"]
  writers :=
    [⟨"servers", .opening, [lineStmt (lit "http \x7b")]⟩,
      ⟨"servers", .openItem, [lineStmt (lit "server \x7b")]⟩,
      ⟨"servers", .closeItem, [lineStmt (lit "\x7d")]⟩,
      ⟨"servers", .closing, [lineStmt (lit "\x7d")]⟩,
      ⟨"name", .opening, [lineStmt (cat (cat (lit "server_name ") nodeVar) (lit ";"))]⟩,
      ⟨"listen", .opening, [lineStmt (cat (cat (lit "listen ") nodeVar) (lit ";"))]⟩,
      ⟨"tls", .opening, [.branch nodeVar [lineStmt (lit "ssl_protocols TLSv1.2 TLSv1.3;")] []]⟩,
      ⟨"gzip", .opening,
        [lineStmt (cat (cat (lit "gzip ") (.cond nodeVar (lit "on") (lit "off"))) (lit ";"))]⟩,
      ⟨"locations", .openItem,
        [lineStmt (cat (cat (lit "location ") (.attr nodeVar "path")) (lit " \x7b"))]⟩,
      ⟨"locations", .closeItem, [lineStmt (lit "\x7d")]⟩,
      ⟨"proxy", .opening, [lineStmt (cat (cat (lit "proxy_pass ") nodeVar) (lit ";"))]⟩,
      ⟨"headers", .openItem,
        [lineStmt (cat (cat (cat (cat (lit "add_header ") (.attr nodeVar "name")) (lit " "))
          (.filter (.attr nodeVar "value") "quote" [] [])) (lit ";")), handledStmt]⟩]

/-- The line at the top: it names the conditions, if there are any. -/
def heading : List Stmt :=
  [.text "# Generated by servgen (nginx dialect",
    .branch (.var "conditions")
      [.text "; ", .output (.filter (.var "conditions") "join" [lit ","] [])] [],
    .text ")\n"]

/-- The template as a program. -/
def program : List Stmt :=
  table.definitions ++ (heading ++ [.output (.call (.var "walk") [] [])])

/-! ## Reading the template -/

def lineTag (content : List Lexeme) : Segment :=
  .output (.word "out" :: .mark .dot :: .word "line" :: .mark .lparen
    :: (content ++ [.mark .rparen]))

/-- A definition of the writer that does nothing. -/
def silentTag (name : String) : Segment :=
  .statement [.word "set", .word name, .mark .assign, .word "noop"]

def macroTags (name : String) (body : List Segment) : List Segment :=
  .statement [.word "macro", .word name, .mark .lparen, .word "out", .mark .comma, .word "node",
      .mark .rparen]
    :: (body ++ [.statement [.word "endmacro"]])

def textTags (name content : String) : List Segment :=
  macroTags name [lineTag [.str content]]

/-- The tags of a macro that writes the node between two texts. -/
def nodeTags (name before after : String) : List Segment :=
  macroTags name [lineTag [.str before, .mark .tilde, .word "node", .mark .tilde, .str after]]

/-- The tags of the heading and of the walk. -/
def lastTags : List Segment :=
  [.text "# Generated by servgen (nginx dialect", .statement [.word "if", .word "conditions"],
    .text "; ",
    .output [.word "conditions", .mark .pipe, .word "join", .mark .lparen, .str ",", .mark .rparen],
    .statement [.word "endif"], .text ")\n", .output [.word "walk", .mark .lparen, .mark .rparen]]

/-- The tags of the template and the text between them. -/
def tags : List Segment :=
  List.flatten
    [[silentTag "site_open", silentTag "locations_open", silentTag "headers_open"],
      textTags "servers_open" "http \x7b", textTags "servers_open_item" "server \x7b",
      textTags "servers_close_item" "\x7d", textTags "servers_close" "\x7d",
      nodeTags "name_open" "server_name " ";", nodeTags "listen_open" "listen " ";",
      macroTags "tls_open"
        [.statement [.word "if", .word "node"], lineTag [.str "ssl_protocols TLSv1.2 TLSv1.3;"],
          .statement [.word "endif"]],
      macroTags "gzip_open"
        [lineTag [.str "gzip ", .mark .tilde, .mark .lparen, .str "on", .word "if", .word "node",
          .word "else", .str "off", .mark .rparen, .mark .tilde, .str ";"]],
      macroTags "locations_open_item"
        [lineTag [.str "location ", .mark .tilde, .word "node", .mark .dot, .word "path",
          .mark .tilde, .str " \x7b"]],
      textTags "locations_close_item" "\x7d", nodeTags "proxy_open" "proxy_pass " ";",
      macroTags "headers_open_item"
        [lineTag [.str "add_header ", .mark .tilde, .word "node", .mark .dot, .word "name",
            .mark .tilde, .str " ", .mark .tilde, .word "node", .mark .dot, .word "value",
            .mark .pipe, .word "quote", .mark .tilde, .str ";"],
          .output [.word "out", .mark .dot, .word "handled", .mark .lparen, .mark .rparen]],
      lastTags]

theorem toList_append_of {s t : String} {cs ds : List Char} (hs : s.toList = cs)
    (ht : t.toList = ds) : (s ++ t).toList = cs ++ ds := by
  rw [String.toList_append, hs, ht]

/-- The characters of the template are given by those of its pieces. What the lexer and the passes
of the preprocessor see in them is then a matter of computing. -/
theorem exists_chars_nginx : ∃ cs, nginx.toList = cs ∧
    segmentsFrom (cs.length + 1) true cs = .ok tags ∧ (lines cs).all Source.isInert = true := by
  apply Exists.intro
  refine ⟨?_, ?_, ?_⟩
  · unfold nginx
    repeat' first | with_reducible apply toList_append_of | exact String.toList_ofList
  · decide +kernel
  · decide +kernel

theorem build_tags : build ⟨⟨.root, []⟩, []⟩ tags = .ok program := rfl

theorem parse_nginx : Template.parse nginx = .ok program := by
  obtain ⟨cs, hcs, htags, -⟩ := exists_chars_nginx
  have hsegments : segments nginx = .ok tags := by
    rw [segments, hcs, htags]
  have hbind (f : List Segment → Except Fault (List Stmt)) :
      (Except.ok tags : Except Fault (List Segment)).bind f = f tags := rfl
  rw [Template.parse, hsegments, hbind, build_tags]

/-- No conditions and no placeholders change the template. -/
theorem result_preprocess_nginx (c : Compiler) (name : String) :
    (c.preprocess name nginx).result = .ok nginx := by
  obtain ⟨cs, hcs, -, hinert⟩ := exists_chars_nginx
  refine Compiler.result_preprocess_of_isInert ?_ c name
  rw [hcs]
  exact List.all_eq_true.mp hinert

/-! ## The writers -/

theorem sound_table : table.Sound where
  nodup := by decide +kernel
  closed := by decide +kernel

section Writers

variable {call : Caller} {n : Nat} {t : Tree} {e : Expr} {before after : String}

theorem yields_configured (ht : Everywhere Unbraced t) :
    Yields call n (.ofTree t) nodeVar Value.Configured :=
  yields_node.imp fun _ hv => .inr ⟨t, ht, hv⟩

/-- A value between two texts makes a line. -/
theorem yields_between (hbare : Bare before.toList) (hsolid : Solid before.toList)
    (he : Yields call n (.ofTree t) e Value.Configured) (hafter : Bare after.toList) :
    Yields call n (.ofTree t) (cat (cat (lit before) e) (lit after)) Value.Phrase :=
  yields_cat (yields_cat (yields_lit (phrase_str hbare hsolid)) he)
    (yields_lit (configured_str hafter))

theorem speaks_brace : Speaks [lineStmt (lit "\x7d")] ClosesBlock :=
  fun _ _ _ _ => saysAll_line (yields_lit ⟨_, rfl, rfl⟩)

/-- The writers that open no block write plain lines. -/
theorem speaks_plain : ∀ w ∈ table.writers, w.field ≠ "servers" → w.field ≠ "locations" →
    Speaks w.body Plain := by
  simp only [table, List.forall_mem_cons]
  refine ⟨fun h => absurd rfl h, fun h => absurd rfl h, fun h => absurd rfl h,
    fun h => absurd rfl h, ?name, ?listen, ?tls, ?gzip, fun _ h => absurd rfl h,
    fun _ h => absurd rfl h, ?proxy, ?headers, List.forall_mem_nil _⟩
  case name | listen | proxy =>
    intro _ _ t ht call n
    exact saysAll_plain
      (yields_between (by decide) (by decide) (yields_configured ht) (by decide))
  case tls =>
    intro _ _ t ht call n
    refine saysAll_plain_cons (says_branch yields_node ?_ saysAll_plain_nil) saysAll_plain_nil
    exact saysAll_plain (yields_lit (phrase_str (by decide) (by decide)))
  case gzip =>
    intro _ _ t ht call n
    refine saysAll_plain (yields_between (by decide) (by decide) ?_ (by decide))
    exact yields_cond yields_node (yields_lit (configured_str (by decide)))
      (yields_lit (configured_str (by decide)))
  case headers =>
    intro _ _ t ht call n
    have hname : Yields call n (.ofTree t)
        (cat (cat (lit "add_header ") (.attr nodeVar "name")) (lit " ")) Value.Phrase :=
      yields_between (by decide) (by decide) (yields_attr "name" ht yields_node) (by decide)
    have hvalue := yields_cat hname (yields_quote (yields_attr "value" ht yields_node))
    have hend : Yields call n (.ofTree t) (lit ";") Value.Configured :=
      yields_lit (configured_str (by decide))
    have hhandled : Says call n (.ofTree t) handledStmt Plain := by
      refine Writes.imp says_handled ?_
      rintro r _ ⟨hflow, rfl⟩
      exact ⟨hflow, plain_nil⟩
    exact saysAll_plain_cons (says_plain (yields_cat hvalue hend))
      (saysAll_plain_cons hhandled saysAll_plain_nil)

theorem speaks_http : Speaks [lineStmt (lit "http \x7b")] OpensBlock :=
  fun _ _ _ _ => saysAll_line
    (yields_lit ⟨_, rfl, "http ".toList, by decide, Bare.inline (by decide), by decide⟩)

theorem speaks_server : Speaks [lineStmt (lit "server \x7b")] OpensBlock :=
  fun _ _ _ _ => saysAll_line
    (yields_lit ⟨_, rfl, "server ".toList, by decide, Bare.inline (by decide), by decide⟩)

theorem speaks_location :
    Speaks [lineStmt (cat (cat (lit "location ") (.attr nodeVar "path")) (lit " \x7b"))]
      OpensBlock := by
  intro t ht call n
  have hstart : Yields call n (.ofTree t) (lit "location ") Value.Phrase :=
    yields_lit (phrase_str (by decide) (by decide))
  exact saysAll_line (yields_cat_brace (yields_cat hstart (yields_attr "path" ht yields_node)))

end Writers

/-- Only `servers` has a writer that is called when a field is left. -/
theorem matched_field : table.Matched .opening .closing := by
  intro field
  by_cases hservers : field = "servers"
  · subst hservers
    exact .inl ⟨_, List.mem_cons_self, _, List.mem_of_getElem? (i := 3) rfl, ⟨rfl, rfl⟩,
      ⟨rfl, rfl⟩, speaks_http, speaks_brace⟩
  · refine .inr fun w hw hfield => ?_
    subst hfield
    have hclosing : ∀ w ∈ table.writers, w.moment = .closing → w.field = "servers" := by
      decide +kernel
    have hlocations : ∀ w ∈ table.writers, w.moment = .opening → w.field ≠ "locations" := by
      decide +kernel
    exact ⟨fun h => hservers (hclosing w hw h),
      fun h => speaks_plain w hw hservers (hlocations w hw h)⟩

/-- The items of `servers` and `locations` become blocks. -/
theorem matched_item : table.Matched .openItem .closeItem := by
  intro field
  by_cases hservers : field = "servers"
  · subst hservers
    exact .inl ⟨_, List.mem_of_getElem? (i := 1) rfl, _, List.mem_of_getElem? (i := 2) rfl,
      ⟨rfl, rfl⟩, ⟨rfl, rfl⟩, speaks_server, speaks_brace⟩
  by_cases hlocations : field = "locations"
  · subst hlocations
    exact .inl ⟨_, List.mem_of_getElem? (i := 8) rfl, _, List.mem_of_getElem? (i := 9) rfl,
      ⟨rfl, rfl⟩, ⟨rfl, rfl⟩, speaks_location, speaks_brace⟩
  · refine .inr fun w hw hfield => ?_
    subst hfield
    have hcloseItem : ∀ w ∈ table.writers, w.moment = .closeItem →
        w.field = "servers" ∨ w.field = "locations" := by
      decide +kernel
    exact ⟨fun h => (hcloseItem w hw h).elim hservers hlocations,
      fun _ => speaks_plain w hw hservers hlocations⟩

/-! ## The heading -/

/-- What the heading says about the conditions. -/
def conditionsText (conditions : Conditions) : String :=
  match conditions with
  | [] => ""
  | _ :: _ => "; " ++ joinValues "," (conditions.map .str)

/-- The first line of the output. -/
def headingText (conditions : Conditions) : String :=
  "# Generated by servgen (nginx dialect" ++ conditionsText conditions ++ ")"

section Heading

variable {call : Caller} {document : Document} {conditions : Conditions}

theorem lookup?_conditions :
    (table.machine document conditions).lookup? "conditions"
      = some (.seq (conditions.map .str)) := by
  have hname : "conditions" ∉ Ordered.keys table.names := by decide +kernel
  rw [WriterTable.machine, lookup?_of_not_local (Ordered.get?_eq_none_iff.mpr hname)]
  rfl

theorem lookup?_walk : (table.machine document conditions).lookup? "walk" = some .walk := by
  have hname : "walk" ∉ Ordered.keys table.names := by decide +kernel
  rw [WriterTable.machine, lookup?_of_not_local (Ordered.get?_eq_none_iff.mpr hname)]
  rfl

theorem eval_conditions :
    ((Expr.var "conditions").eval call).run (table.machine document conditions)
      = (.ok (.seq (conditions.map .str)), table.machine document conditions) := by
  rw [Expr.eval, Step.run_bind_of_ok (Step.run_get _), lookup?_conditions]
  rfl

theorem exec_conditions :
    (Stmt.exec call (.branch (.var "conditions")
      [.text "; ", .output (.filter (.var "conditions") "join" [lit ","] [])] [])).run
        (table.machine document conditions)
      = (.ok (conditionsText conditions, .next), table.machine document conditions) := by
  have hjoin : ((Expr.filter (.var "conditions") "join" [lit ","] []).eval call).run
      (table.machine document conditions)
        = (.ok (.str (joinValues "," (conditions.map .str))),
            table.machine document conditions) := by
    rw [Expr.eval, Step.run_bind_of_ok eval_conditions]
    rfl
  rw [Stmt.exec, Step.run_bind_of_ok eval_conditions, Step.run_bind_of_ok (Step.run_get _)]
  cases conditions with
  | nil => rfl
  | cons c conditions =>
      have hnames : (Stmt.exec call (.output (.filter (.var "conditions") "join" [lit ","] []))).run
          (table.machine document (c :: conditions))
            = (.ok (joinValues "," ((c :: conditions).map .str), .next),
                table.machine document (c :: conditions)) := by
        rw [Stmt.exec, Step.run_bind_of_ok hjoin, Step.run_bind_of_ok (Step.run_get _)]
        rfl
      show (execBody call [.text "; ",
        .output (.filter (.var "conditions") "join" [lit ","] [])]).run _ = _
      rw [run_execBody_cons (exec_text "; " _), execBody, bind_assoc, Step.run_bind_of_ok hnames,
        execBody]
      simp [conditionsText]

theorem bare_joinValues (h : ∀ name ∈ conditions, Bare name.toList) :
    Bare (joinValues "," (conditions.map .str)).toList := by
  -- The fold keeps a text without braces.
  have hfold (start : String) (hstart : Bare start.toList) :
      Bare ((conditions.map Value.str).foldl (fun s v =>
        if s.toList.isEmpty then v.text else s ++ "," ++ v.text) start).toList := by
    induction conditions generalizing start with
    | nil => exact hstart
    | cons name conditions ih =>
        obtain ⟨hname, hrest⟩ := List.forall_mem_cons.mp h
        refine ih hrest _ ?_
        dsimp only
        split
        · exact hname
        · rw [String.toList_append, String.toList_append]
          exact (hstart.append (by decide)).append hname
  exact hfold "" (by decide)

theorem plainLine_headingText (h : ∀ name ∈ conditions, Bare name.toList) :
    PlainLine (headingText conditions) := by
  have hstart : Bare "# Generated by servgen (nginx dialect".toList := by decide +kernel
  have hsolid : Solid "# Generated by servgen (nginx dialect".toList := by decide +kernel
  have hend : Bare ")".toList := by decide
  have hconditions : Bare (conditionsText conditions).toList := by
    cases conditions with
    | nil => exact (by decide : Bare "".toList)
    | cons c conditions =>
        rw [conditionsText, String.toList_append]
        exact Bare.append (by decide) (bare_joinValues h)
  have htext : (headingText conditions).toList = "# Generated by servgen (nginx dialect".toList
      ++ (conditionsText conditions).toList ++ ")".toList :=
    toList_append_of (toList_append_of rfl rfl) rfl
  constructor
  · rw [htext]
    exact ((hstart.append hconditions).append hend).inline
  · rw [htext]
    exact (hsolid.append _).append _

end Heading

/-! ## The output -/

section Output

variable {document : Document} {conditions : Conditions} {text : String} {m : Machine}

/-- A call of `walk` in the template walks the configuration. -/
theorem exists_of_exec_walk {r : String × Flow}
    (h : (execBody (engine.invoke recursionLimit) [.output (.call (.var "walk") [] [])]).run
      (table.machine document conditions) = (.ok r, m)) :
    ∃ answer m', (engine.walkDocument (engine.invoke 499)).run (table.machine document conditions)
        = (.ok answer, m') ∧ r.1 = m'.text answer := by
  have heval : (Expr.eval (engine.invoke recursionLimit) (.call (.var "walk") [] [])).run
      (table.machine document conditions)
        = (engine.walkDocument (engine.invoke 499)).run (table.machine document conditions) := by
    rw [Expr.eval, evalItems, evalNamed, pure_bind, pure_bind]
    show (callName (engine.invoke recursionLimit) "walk" []).run _ = _
    rw [callName, if_neg (by decide), Step.run_bind_of_ok (Step.run_get _), lookup?_walk]
    rfl
  rw [execBody] at h
  obtain ⟨first, m₁, hfirst, h⟩ := Step.run_bind_eq_ok_iff.mp h
  rw [Stmt.exec] at hfirst
  obtain ⟨answer, m', hanswer, hfirst⟩ := Step.run_bind_eq_ok_iff.mp hfirst
  rw [heval] at hanswer
  cases hfirst
  rw [execBody] at h
  cases h
  exact ⟨answer, _, hanswer, String.append_empty⟩

theorem append_endOfHeading (a b s : String) :
    a ++ (b ++ (")\n" ++ s)) = a ++ b ++ ")" ++ ("\n" ++ s) := by
  have hend : ")\n" = ")" ++ "\n" := by decide
  rw [hend]
  simp only [String.append_assoc]

theorem exists_rows_of_render (htree : Everywhere Unbraced document.tree)
    (hconditions : ∀ name ∈ conditions, Bare name.toList)
    (h : (render document conditions nginx).result = .ok text) :
    ∃ rs, Nest rs ∧ text.toList = rs.flatMap fun r => r.chars ++ ['\n'] := by
  obtain ⟨r, m, hrun, rfl⟩ := exists_run_of_render parse_nginx h
  rw [program, WriterTable.run_definitions sound_table, heading] at hrun
  simp only [List.cons_append, List.nil_append] at hrun
  obtain ⟨r₁, hrun₁, hr⟩ := exists_of_execBody_cons (exec_text _ _) hrun
  obtain ⟨r₂, hrun₂, hr₁⟩ := exists_of_execBody_cons exec_conditions hrun₁
  obtain ⟨r₃, hrun₃, hr₂⟩ := exists_of_execBody_cons (exec_text _ _) hrun₂
  obtain ⟨answer, m', hwalk, hr₃⟩ := exists_of_exec_walk hrun₃
  obtain ⟨rs, s, hnest, rfl, hs⟩ := WriterTable.exists_rows_of_walkDocument sound_table
    matched_field matched_item htree hwalk
  have hplain := plainLine_headingText hconditions
  have htext : r.1 = headingText conditions ++ ("\n" ++ s) := by
    rw [hr, hr₁, hr₂, hr₃]
    exact append_endOfHeading _ _ s
  refine ⟨⟨0, headingText conditions⟩ :: rs, Nest.append (.plain hplain) hnest, ?_⟩
  calc r.1.toList
      = (headingText conditions).toList ++ (['\n'] ++ s.toList) := by
        rw [htext]
        exact toList_append_of rfl (toList_append_of rfl rfl)
    _ = (Row.mk 0 (headingText conditions)).chars ++ ['\n']
          ++ rs.flatMap fun r => r.chars ++ ['\n'] := by
        rw [hs, List.append_assoc]
        rfl

end Output

/-- **The nginx dialect emits nested blocks.** If the texts and field names of the loaded tree and
the names of the conditions have no braces and no newlines, then in the output no closing brace
comes too early, none is missing, and a line that is a lone closing brace is indented like the line
whose last brace it closes. No conditions and no placeholders change the template of the dialect
on the way. -/
theorem compile_nginx_nests (c : Compiler) {config text : String} {document : Document}
    (hload : (c.load Compiler.configName config).result = .ok document)
    (hcompile : (c.compile config nginx).result = .ok text)
    (htree : Everywhere Unbraced document.tree)
    (hconditions : ∀ name ∈ c.conditions, Bare name.toList) :
    Balanced text.toList ∧ Aligned (lines text.toList) ∧
      ∀ (other : Compiler) (name : String), (other.preprocess name nginx).result = .ok nginx := by
  have hrender : (render document c.conditions nginx).result = .ok text := by
    rw [← Compiler.result_compile hload (result_preprocess_nginx c Compiler.templateName), hcompile]
  obtain ⟨rs, hnest, htext⟩ := exists_rows_of_render htree hconditions hrender
  rw [htext, lines_rows hnest.newline_not_mem]
  exact ⟨hnest.balanced ['\n'] (by decide) (by decide), hnest.aligned, result_preprocess_nginx⟩

/-- A server whose port is printed as a mapping, with one location. -/
def listenText : String :=
  "\x7bservers: [\x7blisten: \x7ba: 1\x7d, locations: [\x7bpath: \"/\"\x7d]\x7d]\x7d"

/-- The document of the text; it inherits nothing. -/
def listenSite : Document :=
  ⟨.mapping [("servers", .sequence [.mapping [("listen", .mapping [("a", .scalar (.int 1))]),
      ("locations", .sequence [.mapping [("path", .scalar (.str "/"))]])]])],
    ⟨[("", 1), (".servers", 1), (".servers.0", 1), (".servers.0.listen", 1),
      (".servers.0.listen.a", 1), (".servers.0.locations", 1), (".servers.0.locations.0", 1),
      (".servers.0.locations.0.path", 1)]⟩⟩

/-- What becomes of it under the condition `prod`. -/
def listenOutput : String :=
  "# Generated by servgen (nginx dialect; prod)\n" ++ "http \x7b\n  server \x7b\n"
    ++ "    listen \x7b\"a\": 1\x7d;\n    location / \x7b\n    \x7d\n  \x7d\n\x7d\n"

theorem load_listenText (conditions : Conditions) :
    (Compiler.load ⟨conditions, []⟩ Compiler.configName listenText).result = .ok listenSite := by
  have hsource :
      Source.preprocessNamed conditions [] Compiler.configName listenText = .ok listenText :=
    Source.preprocessNamed_of_isInert (List.all_eq_true.mp (by decide +kernel))
  have hparse : (Document.parse listenText).result = .ok listenSite :=
    Document.result_parse_eq_ok_iff.mpr
      ⟨[⟨.lbrace, 1⟩, ⟨.ident "servers", 1⟩, ⟨.colon, 1⟩, ⟨.lbracket, 1⟩, ⟨.lbrace, 1⟩,
          ⟨.ident "listen", 1⟩, ⟨.colon, 1⟩, ⟨.lbrace, 1⟩, ⟨.ident "a", 1⟩, ⟨.colon, 1⟩,
          ⟨.int 1, 1⟩, ⟨.rbrace, 1⟩, ⟨.comma, 1⟩, ⟨.ident "locations", 1⟩, ⟨.colon, 1⟩,
          ⟨.lbracket, 1⟩, ⟨.lbrace, 1⟩, ⟨.ident "path", 1⟩, ⟨.colon, 1⟩, ⟨.str "/", 1⟩,
          ⟨.rbrace, 1⟩, ⟨.rbracket, 1⟩, ⟨.rbrace, 1⟩, ⟨.rbracket, 1⟩, ⟨.rbrace, 1⟩, ⟨.eof, 1⟩],
        .mapping 1 [(⟨"servers", 1⟩, .sequence 1 [.mapping 1 [
          (⟨"listen", 1⟩, .mapping 1 [(⟨"a", 1⟩, .constant 1 (.int 1))]),
          (⟨"locations", 1⟩, .sequence 1 [.mapping 1 [(⟨"path", 1⟩, .constant 1 (.str "/"))]])]])],
        by decide +kernel, by cbv, by cbv⟩
  exact Compiler.result_load_eq_ok_iff.mpr ⟨listenText, listenSite, hsource, hparse, rfl⟩

theorem compile_listenText :
    (Compiler.compile ⟨["prod"], []⟩ listenText nginx).result = .ok listenOutput := by
  have hanswer : ((execBody (engine.invoke recursionLimit) program).run
      (Machine.start listenSite ["prod"])).1 = .ok (listenOutput, .next) := by
    decide +kernel
  rcases hrun : (execBody (engine.invoke recursionLimit) program).run
    (Machine.start listenSite ["prod"]) with ⟨r, m⟩
  rw [hrun] at hanswer
  obtain rfl : r = _ := hanswer
  rw [Compiler.result_compile (load_listenText _) (result_preprocess_nginx _ _)]
  exact result_render_of_run parse_nginx hrun

/-- The braces of the printed mapping match within their line. -/
theorem compile_nginx_nests_listenText :
    (Compiler.load ⟨["prod"], []⟩ Compiler.configName listenText).result = .ok listenSite ∧
      (Compiler.compile ⟨["prod"], []⟩ listenText nginx).result = .ok listenOutput ∧
      Balanced listenOutput.toList ∧ Aligned (lines listenOutput.toList) := by
  have htree : Everywhere Unbraced listenSite.tree := by
    simp only [listenSite, everywhere_mapping, everywhere_sequence, everywhere_scalar, Unbraced,
      List.forall_mem_singleton, List.forall_mem_cons]
    decide
  obtain ⟨hbalanced, haligned, -⟩ := compile_nginx_nests ⟨["prod"], []⟩ (load_listenText _)
    compile_listenText htree (by decide)
  exact ⟨load_listenText _, compile_listenText, hbalanced, haligned⟩

end SiteConf.Dialect.Nginx
