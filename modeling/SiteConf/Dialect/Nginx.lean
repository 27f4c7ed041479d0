set_option autoImplicit false

/-! # The nginx dialect

Servers and locations become nested blocks. Every field of the tree needs a writer here, unless it
is a text or an integer. -/

namespace SiteConf.Dialect

/-- The template of the nginx dialect. -/
def nginx : String :=
  "\x7b#- Block-nesting reverse-proxy dialect. Every field in the tree needs a\n"
    ++ "    writer here unless it is a plain string or number. -#\x7d\n"
    ++ "\x7b% set site_open = noop %\x7d\n"
    ++ "\x7b% set locations_open = noop %\x7d\n"
    ++ "\x7b% set headers_open = noop %\x7d\n"
    ++ "\x7b% macro servers_open(out, node) %\x7d\x7b\x7b out.line(\"http \x7b\") \x7d\x7d\x7b%"
    ++ " endmacro %\x7d\n"
    ++ "\x7b% macro servers_open_item(out, node) %\x7d\x7b\x7b out.line(\"server \x7b\")"
    ++ " \x7d\x7d\x7b% endmacro %\x7d\n"
    ++ "\x7b% macro servers_close_item(out, node) %\x7d\x7b\x7b out.line(\"\x7d\") \x7d\x7d\x7b%"
    ++ " endmacro %\x7d\n"
    ++ "\x7b% macro servers_close(out, node) %\x7d\x7b\x7b out.line(\"\x7d\") \x7d\x7d\x7b%"
    ++ " endmacro %\x7d\n"
    ++ "\x7b% macro name_open(out, node) %\x7d\x7b\x7b out.line(\"server_name \" ~ node ~ \";\")"
    ++ " \x7d\x7d\x7b% endmacro %\x7d\n"
    ++ "\x7b% macro listen_open(out, node) %\x7d\x7b\x7b out.line(\"listen \" ~ node ~ \";\")"
    ++ " \x7d\x7d\x7b% endmacro %\x7d\n"
    ++ "\x7b% macro tls_open(out, node) %\x7d\x7b% if node %\x7d\x7b\x7b"
    ++ " out.line(\"ssl_protocols TLSv1.2 TLSv1.3;\") \x7d\x7d\x7b% endif %\x7d\x7b% endmacro"
    ++ " %\x7d\n"
    ++ "\x7b% macro gzip_open(out, node) %\x7d\x7b\x7b out.line(\"gzip \" ~ (\"on\" if node else"
    ++ " \"off\") ~ \";\") \x7d\x7d\x7b% endmacro %\x7d\n"
    ++ "\x7b% macro locations_open_item(out, node) %\x7d\x7b\x7b out.line(\"location \" ~"
    ++ " node.path ~ \" \x7b\") \x7d\x7d\x7b% endmacro %\x7d\n"
    ++ "\x7b% macro locations_close_item(out, node) %\x7d\x7b\x7b out.line(\"\x7d\")"
    ++ " \x7d\x7d\x7b% endmacro %\x7d\n"
    ++ "\x7b% macro proxy_open(out, node) %\x7d\x7b\x7b out.line(\"proxy_pass \" ~ node ~ \";\")"
    ++ " \x7d\x7d\x7b% endmacro %\x7d\n"
    ++ "\x7b% macro headers_open_item(out, node) %\x7d\x7b\x7b out.line(\"add_header \" ~"
    ++ " node.name ~ \" \" ~ node.value|quote ~ \";\") \x7d\x7d\x7b\x7b out.handled()"
    ++ " \x7d\x7d\x7b% endmacro %\x7d\n"
    ++ "# Generated by servgen (nginx dialect\x7b% if conditions %\x7d; \x7b\x7b"
    ++ " conditions|join(\",\") \x7d\x7d\x7b% endif %\x7d)\n"
    ++ "\x7b\x7b walk() -\x7d\x7d\n"

end SiteConf.Dialect
