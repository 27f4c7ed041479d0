set_option autoImplicit false

/-! # The apache dialect

Every server becomes a virtual host, every location a section of it. -/

namespace SiteConf.Dialect

/-- The template of the apache dialect. -/
def apache : String :=
  "\x7b#- Module-directive dialect: one VirtualHost per server, directives keep\n"
    ++ "    their Apache spelling. -#\x7d\n"
    ++ "\x7b% set site_open = noop %\x7d\n"
    ++ "\x7b% set servers_open = noop %\x7d\n"
    ++ "\x7b% set listen_open = noop %\x7d\n"
    ++ "\x7b% set locations_open = noop %\x7d\n"
    ++ "\x7b% set headers_open = noop %\x7d\n"
    ++ "\x7b% macro servers_open_item(out, node) %\x7d\x7b\x7b out.line(\"<VirtualHost *:\" ~"
    ++ " node.listen ~ \">\") \x7d\x7d\x7b% endmacro %\x7d\n"
    ++ "\x7b% macro servers_close_item(out, node) %\x7d\x7b\x7b out.line(\"</VirtualHost>\")"
    ++ " \x7d\x7d\x7b% endmacro %\x7d\n"
    ++ "\x7b% macro name_open(out, node) %\x7d\x7b\x7b out.line(\"ServerName \" ~ node)"
    ++ " \x7d\x7d\x7b% endmacro %\x7d\n"
    ++ "\x7b% macro tls_open(out, node) %\x7d\x7b\x7b out.line(\"SSLEngine \" ~ (\"on\" if node"
    ++ " else \"off\")) \x7d\x7d\x7b% endmacro %\x7d\n"
    ++ "\x7b% macro gzip_open(out, node) %\x7d\x7b% if node %\x7d\x7b\x7b"
    ++ " out.line(\"SetOutputFilter DEFLATE\") \x7d\x7d\x7b% endif %\x7d\x7b% endmacro %\x7d\n"
    ++ "\x7b% macro locations_open_item(out, node) %\x7d\x7b\x7b out.line(\"<Location \" ~"
    ++ " node.path|quote ~ \">\") \x7d\x7d\x7b% endmacro %\x7d\n"
    ++ "\x7b% macro locations_close_item(out, node) %\x7d\x7b\x7b out.line(\"</Location>\")"
    ++ " \x7d\x7d\x7b% endmacro %\x7d\n"
    ++ "\x7b% macro proxy_open(out, node) %\x7d\x7b\x7b out.line(\"ProxyPass \" ~ node|quote)"
    ++ " \x7d\x7d\x7b\x7b out.line(\"ProxyPassReverse \" ~ node|quote) \x7d\x7d\x7b% endmacro"
    ++ " %\x7d\n"
    ++ "\x7b% macro headers_open_item(out, node) %\x7d\x7b\x7b out.line(\"Header always set \" ~"
    ++ " node.name ~ \" \" ~ node.value|quote) \x7d\x7d\x7b\x7b out.handled() \x7d\x7d\x7b%"
    ++ " endmacro %\x7d\n"
    ++ "# Generated by servgen (apache dialect\x7b% if conditions %\x7d; \x7b\x7b"
    ++ " conditions|join(\",\") \x7d\x7d\x7b% endif %\x7d)\n"
    ++ "\x7b\x7b walk() -\x7d\x7d\n"

end SiteConf.Dialect
