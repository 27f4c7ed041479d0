set_option autoImplicit false

/-! # A demonstration site

A configuration that uses conditions, a placeholder, references and everything that locations
inherit; both dialects can write it. -/

namespace SiteConf.Dialect

/-- The configuration of the demonstration site. -/
def demo : String :=
  "# Demo site for the bundled dialects.\n"
    ++ "\x7b\n"
    ++ "  site: \x7b\n"
    ++ "    domain: 'example.org',\n"
    ++ "    port: @@PORT@@,\n"
    ++ "  \x7d,\n"
    ++ "  servers: [\n"
    ++ "    \x7b\n"
    ++ "      name: site.domain,\n"
    ++ "      listen: site.port,\n"
    ++ "#ifdef tls\n"
    ++ "      tls: true,\n"
    ++ "#endif\n"
    ++ "      locations: [\n"
    ++ "        \x7bpath: '/api', proxy: 'http://127.0.0.1:9000'\x7d,\n"
    ++ "      ],\n"
    ++ "      headers: [\x7bname: 'X-Served-By', value: 'api'\x7d],\n"
    ++ "    \x7d,\n"
    ++ "    \x7b\n"
    ++ "      name: 'static.example.org',\n"
    ++ "      listen: 8081,\n"
    ++ "      #gzip gzip: true,\n"
    ++ "    \x7d,\n"
    ++ "  ],\n"
    ++ "  locations: [\n"
    ++ "    \x7b\n"
    ++ "      path: '/health',\n"
    ++ "      proxy: 'http://127.0.0.1:9100',\n"
    ++ "      headers: [\x7bname: 'Cache-Control', value: 'no-store'\x7d],\n"
    ++ "    \x7d,\n"
    ++ "  ],\n"
    ++ "  headers: [\x7bname: 'X-Frame-Options', value: 'DENY'\x7d],\n"
    ++ "\x7d\n"

end SiteConf.Dialect
